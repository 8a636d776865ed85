import Mathlib.Data.Finset.Card
import Mos.Lib.Except
import Mos.Kern.Pmap

/-!
# MOS on RISC-V — the boot-time allocator

Before `page_init` the kernel takes memory from `alloc`, which moves `freemem`
up; `page_init` then gives all frames above `freemem` to `page_alloc`. But
`mips_init` calls `virtio_disk_init` after `page_init`, and that calls `alloc`
again: the disk rings are put into frames that are on the free list.

`bootMemory` is that order of calls, and `alloc_overlaps_free_frames` shows
that the overlap is there after every boot and whatever `page_alloc` hands out
later.
-/

namespace Mos.Kern

open Mos.Lib

/-- `end` in `kernel.lds`. -/
def KERNEL_END : Nat := 0x80600000
def KSEG1 : Nat := 0xA0000000
def VIRTIOBASE : Nat := 0x10001000
def VIRTIOSIZE : Nat := 0x8000

/-- `ROUND(a, n)`, in `u_long` arithmetic, for `n` not zero. -/
def ROUND (a n : Nat) : Nat := (a + (n - 1)) % 2 ^ 32 &&& (2 ^ 32 - 1 - (n - 1))

/-- The memory during boot; `ranges` are the ranges `alloc` returned, by address
and size, the last one first. -/
structure BootMem where
  freemem : Nat
  ranges : List (Nat × Nat)
  kernelPgdir : Nat → Nat
  mem : Nat → Nat                -- the word at each address

def alloc (b : BootMem) (n align : Nat) (clear : Bool) : Result (Nat × BootMem) :=
  let freemem := if b.freemem = 0 then KERNEL_END else b.freemem
  let alloced := ROUND freemem align
  let freemem := (alloced + n) % 2 ^ 32
  if ULIM + PMEMSIZE ≤ freemem then .error .alloc
  else .ok (alloced, { b with
    freemem := freemem
    ranges := (alloced, n) :: b.ranges
    mem := fun a => if clear ∧ alloced ≤ a ∧ a < alloced + n then 0 else b.mem a })

/-- The page table of directory slot `d`, made if there is none. -/
def kernelTable (b : BootMem) (d : Nat) : Result (Nat × BootMem) :=
  if testFlag (b.kernelPgdir d) PTE_V then .ok (PTE_ADDR (b.kernelPgdir d), b)
  else do
    let (pte, b) ← alloc b BY2PG BY2PG true
    return (pte, { b with
      kernelPgdir := Function.update b.kernelPgdir d (ADDR_PTE pte ||| PTE_V) })

/-- One round of the loop of `riscv_create_mapping`. -/
def createMappingPage (va pa perm : Nat) (b : BootMem) (i : Nat) : Result BootMem := do
  let (pte, b) ← kernelTable b (PDX (va + i * BY2PG))
  return { b with
    mem := Function.update b.mem (pte + 4 * PTX (va + i * BY2PG))
      (ADDR_PTE (pa + i * BY2PG) ||| perm ||| PTE_V) }

def riscvCreateMapping (b : BootMem) (va pa sz perm : Nat) : Result BootMem :=
  (List.range ((sz + BY2PG - 1) / BY2PG)).foldlM (createMappingPage va pa perm) b

/-- `riscv_kvm_map`, for a kernel with its sections at `text` and `data`. -/
def riscvKvmMap (b : BootMem) (text data : Nat) : Result BootMem := do
  let b ← riscvCreateMapping b text text (data - text) (PTE_R ||| PTE_X ||| PTE_G)
  let b ← riscvCreateMapping b data data (ULIM + PMEMSIZE - data) (PTE_R ||| PTE_W ||| PTE_G)
  riscvCreateMapping b (KSEG1 + VIRTIOBASE) VIRTIOBASE VIRTIOSIZE (PTE_R ||| PTE_W ||| PTE_G)

/-- `mips_vm_init`; a `struct Page` has 12 bytes. -/
def mipsVmInit (b : BootMem) (text data : Nat) : Result BootMem := do
  let (_, b) ← alloc b (npage * 12) BY2PG true
  riscvKvmMap b text data

/-- The calls of `alloc` in `virtio_disk_init`: descriptors, the two rings, headers. -/
def virtioDiskAllocs (b : BootMem) : Result BootMem := do
  let (_, b) ← alloc b (32 * 16) 16 true
  let (_, b) ← alloc b (6 + 2 * 32) 2 true
  let (_, b) ← alloc b (6 + 8 * 32) 4 true
  let (_, b) ← alloc b (32 * 16) 16 true
  return b

/-- `mips_vm_init`, `page_init` and `virtio_disk_init`, on memory `mem`. -/
def bootMemory (mem : Nat → Nat) (text data : Nat) : Result (BootMem × Pmap) := do
  let b ← mipsVmInit ⟨0, [], fun _ => 0, mem⟩ text data
  let b := { b with freemem := ROUND b.freemem BY2PG }
  let pm := pageInit b.freemem fun f i => b.mem (page2pa f + 4 * i)
  let b ← virtioDiskAllocs b
  return (b, pm)

/-- `n` calls of `page_alloc`, with the frames they return. -/
def pageAllocs : Nat → Pmap → List Nat × Pmap
  | 0, pm => ([], pm)
  | n + 1, pm =>
    match pageAlloc pm with
    | none => pageAllocs n pm
    | some (f, pm) => (f :: (pageAllocs n pm).1, (pageAllocs n pm).2)

/-- The two allocators do not hand out the same bytes: the ranges of `alloc` are
disjoint, and none of them meets a frame that is free or was taken. -/
structure AllocSafe (b : BootMem) (taken : List Nat) (pm : Pmap) : Prop where
  ranges : b.ranges.Pairwise fun r s => r.1 + r.2 ≤ s.1 ∨ s.1 + s.2 ≤ r.1
  frames : ∀ r ∈ b.ranges, ∀ f, f ∈ pm.pageFreeList ∨ f ∈ taken →
    r.1 + r.2 ≤ page2pa f ∨ page2pa f + BY2PG ≤ r.1

-- ---------------------------------------------------------------------------
-- Rounding and one call
-- ---------------------------------------------------------------------------

theorem ROUND_two_pow {a k : Nat} (hk : k ≤ 32) (ha : a + (2 ^ k - 1) < 2 ^ 32) :
    ROUND a (2 ^ k) = (a + (2 ^ k - 1)) / 2 ^ k * 2 ^ k := by
  have hpos : 0 < 2 ^ k := Nat.two_pow_pos k
  have hmask : 2 ^ 32 - 1 - (2 ^ k - 1) = 2 ^ 32 - 2 ^ k := by omega
  unfold ROUND
  rw [Nat.mod_eq_of_lt ha, hmask]
  exact land_high_mask hk ha

/-- Rounding up stays below the next multiple. -/
theorem ROUND_bounds {a k : Nat} (hk : k ≤ 32) (ha : a + (2 ^ k - 1) < 2 ^ 32) :
    a ≤ ROUND a (2 ^ k) ∧ ROUND a (2 ^ k) ≤ a + (2 ^ k - 1) := by
  rw [ROUND_two_pow hk ha]
  have hpos : 0 < 2 ^ k := Nat.two_pow_pos k
  have hmod := Nat.div_add_mod' (a + (2 ^ k - 1)) (2 ^ k)
  have hlt := Nat.mod_lt (a + (2 ^ k - 1)) hpos
  omega

/-- Rounding up does not pass a multiple. -/
theorem ROUND_le_of_dvd {a m k : Nat} (hk : k ≤ 32) (hm : m + (2 ^ k - 1) < 2 ^ 32) (hd : 2 ^ k ∣ m)
    (ha : a ≤ m) : ROUND a (2 ^ k) ≤ m := by
  obtain ⟨c, rfl⟩ := hd
  have hpos : 0 < 2 ^ k := Nat.two_pow_pos k
  rw [ROUND_two_pow hk (by omega), Nat.mul_comm (2 ^ k) c]
  apply Nat.mul_le_mul_right
  rw [← Nat.lt_succ_iff, Nat.div_lt_iff_lt_mul hpos, Nat.succ_mul, Nat.mul_comm c]
  omega

/-- A call that has room. -/
theorem alloc_ok {b : BootMem} {n k : Nat} (clear : Bool) (hk : k ≤ 12) (h0 : 0 < b.freemem)
    (hroom : b.freemem + 2 ^ 12 + n < ULIM + PMEMSIZE) :
    ∃ b', alloc b n (2 ^ k) clear = .ok (ROUND b.freemem (2 ^ k), b') ∧
      b'.freemem = ROUND b.freemem (2 ^ k) + n ∧
      b'.ranges = (ROUND b.freemem (2 ^ k), n) :: b.ranges ∧ b'.kernelPgdir = b.kernelPgdir := by
  have hpow : 2 ^ k ≤ 2 ^ 12 := Nat.pow_le_pow_right (by decide) hk
  have hlim : ULIM + PMEMSIZE < 2 ^ 32 := by decide
  have hb := ROUND_bounds (a := b.freemem) (k := k) (by omega) (by omega)
  have hsum : (ROUND b.freemem (2 ^ k) + n) % 2 ^ 32 = ROUND b.freemem (2 ^ k) + n :=
    Nat.mod_eq_of_lt (by omega)
  have hne : ¬ b.freemem = 0 := by omega
  have hfit : ¬ ULIM + PMEMSIZE ≤ ROUND b.freemem (2 ^ k) + n := by omega
  refine ⟨{ b with
    freemem := ROUND b.freemem (2 ^ k) + n
    ranges := (ROUND b.freemem (2 ^ k), n) :: b.ranges
    mem := fun a => if clear ∧ ROUND b.freemem (2 ^ k) ≤ a ∧ a < ROUND b.freemem (2 ^ k) + n then 0
      else b.mem a }, ?_, rfl, rfl, rfl⟩
  unfold alloc
  simp only [if_neg hne, hsum]
  rw [if_neg hfit]

-- ---------------------------------------------------------------------------
-- The page tables of the kernel
-- ---------------------------------------------------------------------------

/-- The slots of the kernel directory that have a page table. -/
def kernelSlots (b : BootMem) : Finset Nat :=
  (Finset.range 1024).filter fun d => testFlag (b.kernelPgdir d) PTE_V = true

/-- While the kernel is mapped, `freemem` moves by one page for each page table. -/
structure Mapping (base : Nat) (b : BootMem) : Prop where
  low : KERNEL_END ≤ b.freemem
  high : b.freemem ≤ base + 2 ^ 12 * (kernelSlots b).card

/-- A boundary between pages with room for a full directory of page tables. -/
structure Roomy (base : Nat) : Prop where
  aligned : 2 ^ 12 ∣ base
  room : base + 2 ^ 12 * 1026 < ULIM + PMEMSIZE

theorem kernelSlots_card_le (b : BootMem) : (kernelSlots b).card ≤ 1024 := by
  have hle := Finset.card_filter_le (Finset.range 1024)
    fun d => testFlag (b.kernelPgdir d) PTE_V = true
  rw [Finset.card_range] at hle
  exact hle

/-- Filling an empty slot. -/
theorem kernelSlots_update {b b' : BootMem} {d pte : Nat} (hd : d < 1024)
    (hdir : b'.kernelPgdir = Function.update b.kernelPgdir d (ADDR_PTE pte ||| PTE_V)) :
    kernelSlots b' = insert d (kernelSlots b) := by
  have hnew : testFlag (ADDR_PTE pte ||| PTE_V) PTE_V = true := by
    rw [show PTE_V = 2 ^ 0 from rfl, testFlag_or, testFlag_two_pow (2 ^ 0)]
    simp
  ext x
  simp only [kernelSlots, Finset.mem_filter, Finset.mem_range, Finset.mem_insert, hdir]
  by_cases hx : x = d
  · subst hx
    simp [hd, hnew]
  · simp [hx]

theorem kernelTable_ok {base : Nat} {b : BootMem} (h : Mapping base b) (hbase : Roomy base) {d : Nat}
    (hd : d < 1024) : ∃ pte b', kernelTable b d = .ok (pte, b') ∧ Mapping base b' := by
  unfold kernelTable
  by_cases hV : testFlag (b.kernelPgdir d) PTE_V = true
  · exact ⟨_, b, if_pos hV, h⟩
  · have hcard := kernelSlots_card_le b
    have hroom := hbase.room
    have hlow := h.low
    have hhigh := h.high
    have hlim : ULIM + PMEMSIZE < 2 ^ 32 := by decide
    have hround : ROUND b.freemem (2 ^ 12) ≤ base + 2 ^ 12 * (kernelSlots b).card :=
      ROUND_le_of_dvd (by decide) (by omega) (Nat.dvd_add hbase.aligned (Nat.dvd_mul_right _ _)) hhigh
    have hup := (ROUND_bounds (a := b.freemem) (k := 12) (by decide) (by omega)).1
    have hpos : 0 < b.freemem := Nat.lt_of_lt_of_le (by decide) hlow
    obtain ⟨b₁, hb₁, hfree, -, hdir⟩ := alloc_ok (b := b) (n := 2 ^ 12) (k := 12) true (by decide) hpos
      (by omega)
    refine ⟨ROUND b.freemem (2 ^ 12), { b₁ with
      kernelPgdir := Function.update b₁.kernelPgdir d
        (ADDR_PTE (ROUND b.freemem (2 ^ 12)) ||| PTE_V) }, ?_, ?_, ?_⟩
    · rw [if_neg hV, bind_eq_ok]
      exact ⟨(ROUND b.freemem (2 ^ 12), b₁), hb₁, rfl⟩
    · show KERNEL_END ≤ b₁.freemem
      omega
    · have hnot : d ∉ kernelSlots b := fun hmem => hV (Finset.mem_filter.mp hmem).2
      rw [kernelSlots_update (b := b) hd (by rw [hdir]), Finset.card_insert_of_notMem hnot]
      show b₁.freemem ≤ _
      omega

theorem riscvCreateMapping_ok {base : Nat} {b : BootMem} (h : Mapping base b) (hbase : Roomy base)
    (va pa sz perm : Nat) :
    ∃ b', riscvCreateMapping b va pa sz perm = .ok b' ∧ Mapping base b' := by
  apply foldlM_range_ok (fun _ b => Mapping base b) _ h
  intro i _ b hb
  obtain ⟨pte, b₁, hb₁, h₁⟩ := kernelTable_ok hb hbase (PDX_lt (va + i * BY2PG))
  refine ⟨{ b₁ with
    mem := Function.update b₁.mem (pte + 4 * PTX (va + i * BY2PG))
      (ADDR_PTE (pa + i * BY2PG) ||| perm ||| PTE_V) }, ?_, ⟨h₁.low, h₁.high⟩⟩
  unfold createMappingPage
  rw [bind_eq_ok]
  exact ⟨(pte, b₁), hb₁, rfl⟩

/-- The array `pages` is the first range. -/
theorem alloc_pages (mem : Nat → Nat) :
    ∃ b, alloc ⟨0, [], fun _ => 0, mem⟩ (npage * 12) BY2PG true = .ok (KERNEL_END, b) ∧
      b.freemem = KERNEL_END + npage * 12 := by
  have hround : ROUND KERNEL_END BY2PG = KERNEL_END := by decide
  have hsum : (KERNEL_END + npage * 12) % 2 ^ 32 = KERNEL_END + npage * 12 := by decide
  have hfit : ¬ ULIM + PMEMSIZE ≤ KERNEL_END + npage * 12 := by decide
  refine ⟨⟨KERNEL_END + npage * 12, [(KERNEL_END, npage * 12)], fun _ => 0,
    fun a => if true = true ∧ KERNEL_END ≤ a ∧ a < KERNEL_END + npage * 12 then 0 else mem a⟩, ?_, rfl⟩
  unfold alloc
  simp only [if_true, hround, hsum, if_neg hfit]

/-- Where `mips_vm_init` leaves `freemem`. -/
theorem mipsVmInit_ok (mem : Nat → Nat) (text data : Nat) :
    ∃ b, mipsVmInit ⟨0, [], fun _ => 0, mem⟩ text data = .ok b ∧ KERNEL_END ≤ b.freemem ∧
      b.freemem + 2 ^ 14 < ULIM + PMEMSIZE := by
  have hbase : Roomy 0x80640000 := ⟨by decide, by decide⟩
  obtain ⟨b₀, hb₀, hfree⟩ := alloc_pages mem
  have h₀ : Mapping 0x80640000 b₀ := by
    refine ⟨by omega, ?_⟩
    have hle : KERNEL_END + npage * 12 ≤ 0x80640000 := by decide
    omega
  obtain ⟨b₁, hb₁, h₁⟩ := riscvCreateMapping_ok h₀ hbase text text (data - text)
    (PTE_R ||| PTE_X ||| PTE_G)
  obtain ⟨b₂, hb₂, h₂⟩ := riscvCreateMapping_ok h₁ hbase data data (ULIM + PMEMSIZE - data)
    (PTE_R ||| PTE_W ||| PTE_G)
  obtain ⟨b₃, hb₃, h₃⟩ := riscvCreateMapping_ok h₂ hbase (KSEG1 + VIRTIOBASE) VIRTIOBASE VIRTIOSIZE
    (PTE_R ||| PTE_W ||| PTE_G)
  refine ⟨b₃, ?_, h₃.low, ?_⟩
  · unfold mipsVmInit riscvKvmMap
    rw [bind_eq_ok]
    refine ⟨(KERNEL_END, b₀), hb₀, ?_⟩
    simp only [hb₁, hb₂, hb₃, bind, Except.bind]
  · have hhigh := h₃.high
    have hcard := kernelSlots_card_le b₃
    have hlim : 0x80640000 + 2 ^ 12 * 1024 + 2 ^ 14 < ULIM + PMEMSIZE := by decide
    omega

-- ---------------------------------------------------------------------------
-- The overlap
-- ---------------------------------------------------------------------------

/-- The calls of `virtio_disk_init` succeed, and the first range starts at
`freemem`. -/
theorem virtioDiskAllocs_ok {b : BootMem} (h0 : 0 < b.freemem) (hd : 2 ^ 12 ∣ b.freemem)
    (hroom : b.freemem + 2 ^ 13 < ULIM + PMEMSIZE) :
    ∃ b', virtioDiskAllocs b = .ok b' ∧ (b.freemem, 512) ∈ b'.ranges := by
  have hlim : ULIM + PMEMSIZE < 2 ^ 32 := by decide
  have hround : ROUND b.freemem (2 ^ 4) = b.freemem := by
    apply Nat.le_antisymm
    · exact ROUND_le_of_dvd (by decide) (by omega) (Nat.dvd_trans (by decide) hd) (Nat.le_refl _)
    · exact (ROUND_bounds (k := 4) (by decide) (by omega)).1
  obtain ⟨b₁, hb₁, hf₁, hr₁, -⟩ := alloc_ok (b := b) (n := 32 * 16) (k := 4) true (by decide) h0 (by omega)
  have hb := ROUND_bounds (a := b.freemem) (k := 4) (by decide) (by omega)
  obtain ⟨b₂, hb₂, hf₂, hr₂, -⟩ := alloc_ok (b := b₁) (n := 6 + 2 * 32) (k := 1) true (by decide)
    (by omega) (by omega)
  have hb' := ROUND_bounds (a := b₁.freemem) (k := 1) (by decide) (by omega)
  obtain ⟨b₃, hb₃, hf₃, hr₃, -⟩ := alloc_ok (b := b₂) (n := 6 + 8 * 32) (k := 2) true (by decide)
    (by omega) (by omega)
  have hb'' := ROUND_bounds (a := b₂.freemem) (k := 2) (by decide) (by omega)
  obtain ⟨b₄, hb₄, -, hr₄, -⟩ := alloc_ok (b := b₃) (n := 32 * 16) (k := 4) true (by decide)
    (by omega) (by omega)
  refine ⟨b₄, ?_, ?_⟩
  · unfold virtioDiskAllocs
    rw [bind_eq_ok]
    refine ⟨_, hb₁, ?_⟩
    rw [bind_eq_ok]
    refine ⟨_, hb₂, ?_⟩
    rw [bind_eq_ok]
    refine ⟨_, hb₃, ?_⟩
    rw [bind_eq_ok]
    exact ⟨_, hb₄, rfl⟩
  · rw [hr₄, hr₃, hr₂, hr₁, hround]
    simp

/-- A frame that was on the free list is still there or was handed out. -/
theorem pageAllocs_mem {f : Nat} (n : Nat) {pm : Pmap} (hf : f ∈ pm.pageFreeList) :
    f ∈ (pageAllocs n pm).2.pageFreeList ∨ f ∈ (pageAllocs n pm).1 := by
  induction n generalizing pm with
  | zero => exact Or.inl hf
  | succ n ih =>
    unfold pageAllocs pageAlloc
    cases hl : pm.pageFreeList with
    | nil =>
      rw [hl] at hf
      cases hf
    | cons g rest =>
      rw [hl, List.mem_cons] at hf
      rcases hf with rfl | hf
      · exact Or.inr List.mem_cons_self
      · have hrest : f ∈ ({ pm with pageFreeList := rest }.clear g).pageFreeList := hf
        rcases ih hrest with hmem | hmem
        · exact Or.inl hmem
        · exact Or.inr (List.mem_cons_of_mem g hmem)

/-- After the boot the descriptors of the disk lie in a free frame. -/
theorem bootMemory_overlap (mem : Nat → Nat) (text data : Nat) :
    ∃ b pm f, bootMemory mem text data = .ok (b, pm) ∧ f ∈ pm.pageFreeList ∧
      (page2pa f, 512) ∈ b.ranges := by
  have hlim : ULIM + PMEMSIZE = 0x80200000 + npage * 4096 := by decide
  obtain ⟨b, hb, hlow, hroom⟩ := mipsVmInit_ok mem text data
  have hend : KERNEL_END = 0x80600000 := rfl
  have hnp := npage_eq
  have hpg : BY2PG = 2 ^ 12 := rfl
  -- the boundary `page_init` fixes
  have hbound := ROUND_bounds (a := b.freemem) (k := 12) (by decide) (by omega)
  have hdvd : 2 ^ 12 ∣ ROUND b.freemem (2 ^ 12) := by
    rw [ROUND_two_pow (by decide) (by omega)]
    exact Nat.dvd_mul_left _ _
  obtain ⟨b', hb', hmem⟩ := virtioDiskAllocs_ok (b := { b with freemem := ROUND b.freemem BY2PG })
    (by rw [hpg]; show 0 < ROUND b.freemem (2 ^ 12); omega) hdvd
    (by rw [hpg]; show ROUND b.freemem (2 ^ 12) + 2 ^ 13 < _; omega)
  obtain ⟨c, hc⟩ := hdvd
  have hf : c - 0x80200 < npage := by omega
  -- the frame at the boundary is the first one `page_init` frees
  refine ⟨b', pageInit (ROUND b.freemem BY2PG) fun f i => b.mem (page2pa f + 4 * i), c - 0x80200,
    ?_, ?_, ?_⟩
  · unfold bootMemory
    rw [bind_eq_ok]
    refine ⟨b, hb, ?_⟩
    rw [bind_eq_ok]
    exact ⟨b', hb', rfl⟩
  · have hused : usedFrames (ROUND b.freemem BY2PG) ≤ c - 0x80200 := by
      unfold usedFrames KERNBASE
      rw [hpg, hc]
      omega
    unfold pageInit
    simp only [List.mem_reverse, List.mem_filter, List.mem_range, decide_eq_true_eq]
    exact ⟨hf, hused⟩
  · have hpa : page2pa (c - 0x80200) = ROUND b.freemem BY2PG := by
      rw [page2pa_eq hf, hpg, hc]
      omega
    rw [hpa]
    exact hmem

/-- A range and a frame that start at the same address. -/
theorem not_allocSafe {b : BootMem} {taken : List Nat} {pm : Pmap} {f : Nat}
    (hf : f ∈ pm.pageFreeList ∨ f ∈ taken) (hr : (page2pa f, 512) ∈ b.ranges) :
    ¬ AllocSafe b taken pm := by
  intro hsafe
  have hno := hsafe.frames _ hr f hf
  simp only [BY2PG] at hno
  omega

/-- **The disk rings lie in free frames.** For every layout of the kernel and
every number of `page_alloc` calls after the boot, the boot succeeds and the two
allocators hand out the same bytes. -/
theorem alloc_overlaps_free_frames (mem : Nat → Nat) (text data n : Nat) :
    ∃ b pm, bootMemory mem text data = .ok (b, pm) ∧
      ¬ AllocSafe b (pageAllocs n pm).1 (pageAllocs n pm).2 := by
  obtain ⟨b, pm, f, hboot, hfree, hr⟩ := bootMemory_overlap mem text data
  exact ⟨b, pm, hboot, not_allocSafe (pageAllocs_mem n hfree) hr⟩

/-- A kernel of 16 pages of text, right after the boot. -/
theorem alloc_overlaps_right_after_boot :
    ∃ b pm, bootMemory (fun _ => 0) KERNBASE (KERNBASE + 16 * BY2PG) = .ok (b, pm) ∧
      ¬ AllocSafe b [] pm := by
  obtain ⟨b, pm, f, hboot, hfree, hr⟩ :=
    bootMemory_overlap (fun _ => 0) KERNBASE (KERNBASE + 16 * BY2PG)
  exact ⟨b, pm, hboot, not_allocSafe (Or.inl hfree) hr⟩

end Mos.Kern
