import Mathlib.Data.BitVec
import Mos.Kern.Pmap

/-!
# MOS on RISC-V — the virtio disk driver

The functions of `kern/disk_driver.c` over the ring structures of
`include/drivers/virtio_ring.h`. `Vring` is the `struct vring` with the memory
its pointers name (descriptors, available ring, used ring, request headers),
the request structures in the clients' pages and the device registers the
driver touches.

`alloc3Desc_spec`, `freeDesc_spec` and `freeChain_spec` say what the
descriptor bitmap becomes; callers use these and never look at its bits.
-/

namespace Mos.Kern

def VIRTIO_QUEUE_NUM : Nat := 32
def VRING_DESC_F_NEXT : Nat := 1
def VRING_DESC_F_WRITE : Nat := 2
def VIRTIO_BLK_T_IN : Nat := 0
def VIRTIO_BLK_T_OUT : Nat := 1
def DISK_STATUS_NO_RESP : Nat := 0xff
def DISK_BUFFUER_LEN : Nat := 512

structure VringDesc where
  addr : Nat
  len : Nat
  flags : Nat
  next : Nat
  deriving DecidableEq, Repr

structure VringAvail where
  flags : Nat
  idx : Nat
  ring : Nat → Nat

structure VringUsedElem where
  id : Nat
  len : Nat
  deriving DecidableEq, Repr

structure VringUsed where
  flags : Nat
  idx : Nat
  ring : Nat → VringUsedElem

structure VirtioBlkOuthdr where
  type : Nat
  ioprio : Nat
  sector : Nat
  deriving DecidableEq, Repr

structure VirtioBlkReq where
  sector : Nat
  write : Nat
  status : Nat
  deriving DecidableEq, Repr

structure Vring where
  desc : Nat → VringDesc
  avail : VringAvail
  used : VringUsed
  descFreeBitmap : BitVec 32
  outhdr : Nat → VirtioBlkOuthdr
  outhdrPa : Nat                  -- the address of `outhdr[0]`
  usedIdx : Nat                   -- `used_idx`, the driver's position in `used`
  reqAt : Nat → VirtioBlkReq      -- the request structure at each address
  interruptStatus : Nat
  interruptAck : Nat
  queueNotify : Nat               -- writes to `VIRTIO_MMIO_QUEUE_NOTIFY`

/-- The rings `virtio_disk_init` leaves: zeroed memory, all descriptors free. -/
def virtioDiskInit (outhdrPa : Nat) (reqAt : Nat → VirtioBlkReq) : Vring where
  desc _ := ⟨0, 0, 0, 0⟩
  avail := ⟨1, 0, fun _ => 0⟩
  used := ⟨0, 0, fun _ => ⟨0, 0⟩⟩
  descFreeBitmap := BitVec.allOnes 32
  outhdr _ := ⟨0, 0, 0⟩
  outhdrPa := outhdrPa
  usedIdx := 0
  reqAt := reqAt
  interruptStatus := 0
  interruptAck := 0
  queueNotify := 0

/-- `alloc_desc`: the lowest free descriptor. -/
def allocDesc (d : Vring) : Result (Int × Vring) :=
  if d.descFreeBitmap = 0#32 then .ok (-E_NO_RING_DESC, d)
  else
    match (List.range VIRTIO_QUEUE_NUM).find? fun i => d.descFreeBitmap &&& (1#32 <<< i) ≠ 0#32 with
    | some i => .ok (i, { d with descFreeBitmap := d.descFreeBitmap &&& ~~~(1#32 <<< i) })
    | none => .error .unreachable

/-- `free_desc`; both assertions are the one error. -/
def freeDesc (d : Vring) (idx : Nat) : Result Vring :=
  if idx < VIRTIO_QUEUE_NUM ∧ d.descFreeBitmap &&& (1#32 <<< idx) = 0#32 then
    .ok { d with descFreeBitmap := d.descFreeBitmap ||| (1#32 <<< idx) }
  else .error .freeDesc

/-- The loop of `alloc_3_desc` with `n` rounds to go and `idx` allocated so far. -/
def allocDescs : Nat → List Nat → Vring → Result ((Int ⊕ List Nat) × Vring)
  | 0, idx, d => .ok (.inr idx, d)
  | n + 1, idx, d => do
    let (r, d) ← allocDesc d
    if r < 0 then
      let d ← idx.foldlM freeDesc d
      return (.inl r, d)
    else
      allocDescs n (idx ++ [r.toNat]) d

/-- `alloc_3_desc`: the error code, or the three descriptors. -/
def alloc3Desc (d : Vring) : Result ((Int ⊕ List Nat) × Vring) := allocDescs 3 [] d

/-- The loop of `free_chain`. A round frees a descriptor that was in use, so the
assertion of `free_desc` ends the loop after at most `VIRTIO_QUEUE_NUM` rounds. -/
def freeChainLoop : Nat → Vring → Nat → Result Vring
  | 0, _, _ => .error .freeDesc
  | n + 1, d, idx => do
    let lastFlag := (d.desc idx).flags
    let lastNext := (d.desc idx).next
    let d ← freeDesc d idx
    if lastFlag &&& VRING_DESC_F_NEXT ≠ 0 then freeChainLoop n d lastNext else return d

def freeChain (d : Vring) (idx : Nat) : Result Vring :=
  freeChainLoop (VIRTIO_QUEUE_NUM + 1) d idx

/-- The descriptors `virtio_disk_req` fills in for the request at `req`. -/
def fillDesc (d : Vring) (req i₀ i₁ i₂ : Nat) : Nat → VringDesc :=
  let write := (d.reqAt req).write
  let desc := Function.update d.desc i₀ ⟨d.outhdrPa + 16 * i₀, 16, VRING_DESC_F_NEXT, i₁⟩
  let desc := Function.update desc i₁ ⟨req + 6, DISK_BUFFUER_LEN,
    (if write ≠ 0 then 0 else VRING_DESC_F_WRITE) ||| VRING_DESC_F_NEXT, i₂⟩
  Function.update desc i₂ ⟨req + 5, 1, VRING_DESC_F_WRITE, 0⟩

/-- `virtio_disk_req` once it has its descriptors. -/
def postReq (d : Vring) (req i₀ i₁ i₂ : Nat) : Vring :=
  let r := d.reqAt req
  { d with
    outhdr := Function.update d.outhdr i₀
      ⟨if r.write ≠ 0 then VIRTIO_BLK_T_OUT else VIRTIO_BLK_T_IN, 0, r.sector⟩
    desc := fillDesc d req i₀ i₁ i₂
    reqAt := Function.update d.reqAt req { r with status := DISK_STATUS_NO_RESP }
    avail := { d.avail with
      ring := Function.update d.avail.ring (d.avail.idx % VIRTIO_QUEUE_NUM) i₀
      idx := (d.avail.idx + 1) % 2 ^ 16 } }

def virtioDiskReq (d : Vring) (req : Nat) : Result (Int × Vring) := do
  if req < KSTACKTOP then return (-E_INVAL, d)
  match ← alloc3Desc d with
  | (.inr [i₀, i₁, i₂], d) =>
    let d := postReq d req i₀ i₁ i₂
    if d.used.flags = 0 then return (0, { d with queueNotify := d.queueNotify + 1 })
    else if d.used.flags ≠ 1 then .error .usedFlags
    else return (0, d)
  | (.inr _, _) => .error .unreachable
  | (.inl r, d) => return (r, d)

/-- The acknowledgement at the start of `virtio_disk_intr`. -/
def intrAck (d : Vring) : Vring :=
  if d.interruptStatus ≠ 0 then { d with interruptAck := d.interruptStatus &&& 0x3 } else d

/-- The head of the chain the driver looks at next in the used ring. -/
def usedHead (d : Vring) : Nat := (d.used.ring (d.usedIdx % VIRTIO_QUEUE_NUM)).id

/-- One round of the loop of `virtio_disk_intr`. -/
def intrRound (d : Vring) : Result Vring := do
  let d ← freeChain d (usedHead d)
  return { d with usedIdx := (d.usedIdx + 1) % 2 ^ 16 }

def intrRounds : Nat → Vring → Result Vring
  | 0, d => .ok d
  | n + 1, d => do
    let d ← intrRound d
    intrRounds n d

/-- `virtio_disk_intr`: the driver counts `used_idx` up to `used->idx`, modulo
`2 ^ 16`. -/
def virtioDiskIntr (d : Vring) : Result Vring :=
  intrRounds ((d.used.idx + 2 ^ 16 - d.usedIdx) % 2 ^ 16) (intrAck d)

-- ---------------------------------------------------------------------------
-- The descriptor bitmap
-- ---------------------------------------------------------------------------

theorem bit_ne_zero_iff (b : BitVec 32) {i : Nat} (hi : i < 32) :
    b &&& (1#32 <<< i) ≠ 0#32 ↔ b.getLsbD i = true := by
  constructor
  · intro h
    by_contra hn
    apply h
    apply BitVec.eq_of_getLsbD_eq
    intro j hj
    by_cases hij : j = i
    · subst hij
      simp [hn]
    · simp only [BitVec.getLsbD_and, BitVec.getLsbD_shiftLeft, hj]
      simp
      omega
  · intro h h0
    have := congrArg (fun v => BitVec.getLsbD v i) h0
    simp only [BitVec.getLsbD_and, h] at this
    simp [hi] at this

theorem getLsbD_clear (b : BitVec 32) {i j : Nat} (hj : j < 32) :
    (b &&& ~~~(1#32 <<< i)).getLsbD j = (b.getLsbD j && !decide (j = i)) := by
  by_cases h : j = i
  · subst h
    simp [hj]
  · simp only [BitVec.getLsbD_and, BitVec.getLsbD_not, BitVec.getLsbD_shiftLeft]
    simp [h, hj]
    omega

theorem getLsbD_set (b : BitVec 32) {i j : Nat} (hj : j < 32) :
    (b ||| (1#32 <<< i)).getLsbD j = (b.getLsbD j || decide (j = i)) := by
  by_cases h : j = i
  · subst h
    simp [hj]
  · simp only [BitVec.getLsbD_or, BitVec.getLsbD_shiftLeft]
    simp [h, hj]
    omega

/-- Descriptor `i` is free. -/
def Vring.IsFree (d : Vring) (i : Nat) : Prop := d.descFreeBitmap.getLsbD i = true

/-- The bitmap is all the allocator changes. -/
def Vring.withBits (d : Vring) (b : BitVec 32) : Vring := { d with descFreeBitmap := b }

theorem Vring.withBits_bits (d : Vring) (b : BitVec 32) : (d.withBits b).descFreeBitmap = b := rfl
theorem Vring.withBits_withBits (d : Vring) (b b' : BitVec 32) :
    (d.withBits b).withBits b' = d.withBits b' := rfl
theorem Vring.withBits_self (d : Vring) : d.withBits d.descFreeBitmap = d := rfl
theorem Vring.withBits_desc (d : Vring) (b : BitVec 32) : (d.withBits b).desc = d.desc := rfl

theorem allocDesc_none {d : Vring} (h : d.descFreeBitmap = 0#32) :
    allocDesc d = .ok (-E_NO_RING_DESC, d) := if_pos h

theorem allocDesc_some {d : Vring} (h : d.descFreeBitmap ≠ 0#32) :
    ∃ i : Nat, i < 32 ∧ d.IsFree i ∧
      allocDesc d = .ok ((i : Int), d.withBits (d.descFreeBitmap &&& ~~~(1#32 <<< i))) := by
  unfold allocDesc
  rw [if_neg h]
  cases hf : (List.range VIRTIO_QUEUE_NUM).find? fun i =>
      d.descFreeBitmap &&& (1#32 <<< i) ≠ 0#32 with
  | some i =>
    have hlt : i < 32 := List.mem_range.mp (List.mem_of_find?_eq_some hf)
    have hbit := List.find?_some hf
    rw [decide_eq_true_eq] at hbit
    exact ⟨i, hlt, (bit_ne_zero_iff _ hlt).mp hbit, rfl⟩
  | none =>
    -- a bitmap without a set bit is zero
    exfalso
    apply h
    apply BitVec.eq_of_getLsbD_eq
    intro i hi
    have hno := List.find?_eq_none.mp hf i (List.mem_range.mpr hi)
    rw [decide_eq_true_eq, bit_ne_zero_iff _ hi] at hno
    simpa using hno

theorem freeDesc_ok {d : Vring} {i : Nat} (hi : i < 32) (h : ¬ d.IsFree i) :
    freeDesc d i = .ok (d.withBits (d.descFreeBitmap ||| (1#32 <<< i))) := by
  have hz : d.descFreeBitmap &&& (1#32 <<< i) = 0#32 := by
    by_contra hne
    exact h ((bit_ne_zero_iff _ hi).mp hne)
  exact if_pos ⟨hi, hz⟩

theorem isFree_withBits {d : Vring} {b : BitVec 32} {i : Nat} :
    (d.withBits b).IsFree i ↔ b.getLsbD i = true := Iff.rfl

/-- Setting a bit that was just cleared restores the bitmap. -/
theorem set_clear {b : BitVec 32} {i : Nat} (hi : i < 32) (h : b.getLsbD i = true) :
    (b &&& ~~~(1#32 <<< i)) ||| (1#32 <<< i) = b := by
  apply BitVec.eq_of_getLsbD_eq
  intro j hj
  rw [getLsbD_set _ hj, getLsbD_clear _ hj]
  by_cases hji : j = i
  · subst hji
    simp [h]
  · simp [hji]

theorem set_comm (b : BitVec 32) (i j : Nat) :
    (b ||| (1#32 <<< i)) ||| (1#32 <<< j) = (b ||| (1#32 <<< j)) ||| (1#32 <<< i) := by
  rw [BitVec.or_assoc, BitVec.or_comm (1#32 <<< i), ← BitVec.or_assoc]

/-- `alloc_3_desc` gives three free descriptors, or the state it was given. -/
theorem alloc3Desc_spec (d : Vring) :
    alloc3Desc d = .ok (.inl (-E_NO_RING_DESC), d) ∨
    ∃ i₀ i₁ i₂ b, i₀ < 32 ∧ i₁ < 32 ∧ i₂ < 32 ∧ [i₀, i₁, i₂].Nodup ∧
      d.IsFree i₀ ∧ d.IsFree i₁ ∧ d.IsFree i₂ ∧
      alloc3Desc d = .ok (.inr [i₀, i₁, i₂], d.withBits b) ∧
      ∀ j < 32, b.getLsbD j = (d.descFreeBitmap.getLsbD j && !decide (j ∈ [i₀, i₁, i₂])) := by
  have hneg : (-E_NO_RING_DESC : Int) < 0 := by decide
  have hpos : ∀ i : Nat, ¬ ((i : Int) < 0) := fun i => by omega
  by_cases h₀ : d.descFreeBitmap = 0#32
  · left
    simp only [alloc3Desc, allocDescs, allocDesc_none h₀]
    rfl
  obtain ⟨i₀, hi₀, hf₀, he₀⟩ := allocDesc_some h₀
  obtain ⟨b₀, hb₀⟩ : ∃ b, d.descFreeBitmap &&& ~~~(1#32 <<< i₀) = b := ⟨_, rfl⟩
  rw [hb₀] at he₀
  by_cases h₁ : b₀ = 0#32
  · -- one free descriptor: it is given back
    left
    have hfree : freeDesc (d.withBits b₀) i₀ = .ok d := by
      rw [freeDesc_ok hi₀ (by rw [isFree_withBits, ← hb₀, getLsbD_clear _ hi₀]; simp),
        Vring.withBits_bits, Vring.withBits_withBits, ← hb₀, set_clear hi₀ hf₀, Vring.withBits_self]
    have he₁ : allocDesc (d.withBits b₀) = .ok (-E_NO_RING_DESC, d.withBits b₀) := allocDesc_none h₁
    simp only [alloc3Desc, allocDescs, he₀, bind, Except.bind, if_neg (hpos i₀), he₁, if_pos hneg]
    simp [hfree, bind, Except.bind, pure, Except.pure]
  obtain ⟨i₁, hi₁, hf₁, he₁⟩ := allocDesc_some (d := d.withBits b₀) h₁
  rw [Vring.withBits_bits, Vring.withBits_withBits] at he₁
  rw [isFree_withBits] at hf₁
  have h01 : i₁ ≠ i₀ ∧ d.IsFree i₁ := by
    rw [← hb₀, getLsbD_clear _ hi₁] at hf₁
    simpa [Vring.IsFree, and_comm] using hf₁
  obtain ⟨b₁, hb₁⟩ : ∃ b, b₀ &&& ~~~(1#32 <<< i₁) = b := ⟨_, rfl⟩
  rw [hb₁] at he₁
  by_cases h₂ : b₁ = 0#32
  · -- two free descriptors: both are given back
    left
    have hbits : (b₁ ||| (1#32 <<< i₀)) ||| (1#32 <<< i₁) = d.descFreeBitmap := by
      rw [set_comm, ← hb₁, set_clear hi₁ hf₁, ← hb₀, set_clear hi₀ hf₀]
    have hused₀ : ¬ (d.withBits b₁).IsFree i₀ := by
      rw [isFree_withBits, ← hb₁, getLsbD_clear _ hi₀, ← hb₀, getLsbD_clear _ hi₀]
      simp
    have hfree₀ : freeDesc (d.withBits b₁) i₀ = .ok (d.withBits (b₁ ||| (1#32 <<< i₀))) := by
      rw [freeDesc_ok hi₀ hused₀, Vring.withBits_bits, Vring.withBits_withBits]
    have hused₁ : ¬ (d.withBits (b₁ ||| (1#32 <<< i₀))).IsFree i₁ := by
      rw [isFree_withBits, getLsbD_set _ hi₁, ← hb₁, getLsbD_clear _ hi₁]
      simp [h01.1]
    have hfree₁ : freeDesc (d.withBits (b₁ ||| (1#32 <<< i₀))) i₁ = .ok d := by
      rw [freeDesc_ok hi₁ hused₁, Vring.withBits_bits, Vring.withBits_withBits, hbits,
        Vring.withBits_self]
    have he₂ : allocDesc (d.withBits b₁) = .ok (-E_NO_RING_DESC, d.withBits b₁) := allocDesc_none h₂
    simp only [alloc3Desc, allocDescs, he₀, bind, Except.bind, if_neg (hpos i₀), he₁,
      if_neg (hpos i₁), he₂, if_pos hneg]
    simp [hfree₀, hfree₁, bind, Except.bind, pure, Except.pure]
  obtain ⟨i₂, hi₂, hf₂, he₂⟩ := allocDesc_some (d := d.withBits b₁) h₂
  rw [Vring.withBits_bits, Vring.withBits_withBits] at he₂
  rw [isFree_withBits, ← hb₁, getLsbD_clear _ hi₂, ← hb₀, getLsbD_clear _ hi₂] at hf₂
  have h012 : i₂ ≠ i₀ ∧ i₂ ≠ i₁ ∧ d.IsFree i₂ := by
    simp at hf₂
    exact ⟨hf₂.1.2, hf₂.2, hf₂.1.1⟩
  right
  refine ⟨i₀, i₁, i₂, b₁ &&& ~~~(1#32 <<< i₂), hi₀, hi₁, hi₂, ?_, hf₀, h01.2, h012.2.2, ?_, ?_⟩
  · simp [Ne.symm h01.1, Ne.symm h012.1, Ne.symm h012.2.1]
  · simp only [alloc3Desc, allocDescs, he₀, bind, Except.bind, if_neg (hpos i₀), he₁,
      if_neg (hpos i₁), he₂, if_neg (hpos i₂)]
    simp
  · intro j hj
    rw [getLsbD_clear _ hj, ← hb₁, getLsbD_clear _ hj, ← hb₀, getLsbD_clear _ hj]
    simp [Bool.and_assoc]

-- ---------------------------------------------------------------------------
-- Chains
-- ---------------------------------------------------------------------------

/-- The descriptors of one request: header, buffer, status. -/
structure DescChain where
  head : Nat
  mid : Nat
  tail : Nat
  deriving DecidableEq, Repr

def DescChain.toList (c : DescChain) : List Nat := [c.head, c.mid, c.tail]

/-- The chain the device reads from `head`. -/
def chainAt (d : Vring) (head : Nat) : DescChain :=
  ⟨head, (d.desc head).next, (d.desc (d.desc head).next).next⟩

/-- The links of `c` are written in the descriptors. -/
structure Linked (d : Vring) (c : DescChain) : Prop where
  headNext : (d.desc c.head).next = c.mid
  headFlag : (d.desc c.head).flags &&& VRING_DESC_F_NEXT ≠ 0
  midNext : (d.desc c.mid).next = c.tail
  midFlag : (d.desc c.mid).flags &&& VRING_DESC_F_NEXT ≠ 0
  tailFlag : (d.desc c.tail).flags &&& VRING_DESC_F_NEXT = 0

theorem Linked.congr {d d' : Vring} {c : DescChain} (h : Linked d c)
    (hd : ∀ i ∈ c.toList, d'.desc i = d.desc i) : Linked d' c := by
  have h0 := hd c.head (by simp [DescChain.toList])
  have h1 := hd c.mid (by simp [DescChain.toList])
  have h2 := hd c.tail (by simp [DescChain.toList])
  exact ⟨by rw [h0]; exact h.headNext, by rw [h0]; exact h.headFlag, by rw [h1]; exact h.midNext,
    by rw [h1]; exact h.midFlag, by rw [h2]; exact h.tailFlag⟩

theorem Linked.chainAt_eq {d : Vring} {c : DescChain} (h : Linked d c) : chainAt d c.head = c := by
  unfold chainAt
  rw [h.headNext, h.midNext]

/-- `free_chain` frees the three descriptors of a linked chain and nothing else. -/
theorem freeChain_spec {d : Vring} {c : DescChain} (h : Linked d c)
    (hlt : ∀ i ∈ c.toList, i < 32) (hnodup : c.toList.Nodup) (hused : ∀ i ∈ c.toList, ¬ d.IsFree i) :
    ∃ b, freeChain d c.head = .ok (d.withBits b) ∧
      ∀ j < 32, b.getLsbD j = (d.descFreeBitmap.getLsbD j || decide (j ∈ c.toList)) := by
  simp only [DescChain.toList, List.mem_cons, List.not_mem_nil, or_false, forall_eq_or_imp,
    forall_eq, List.nodup_cons, not_or, not_false_eq_true, List.nodup_nil, and_true] at hlt hnodup hused
  obtain ⟨hl0, hl1, hl2⟩ := hlt
  obtain ⟨⟨h01, h02⟩, h12⟩ := hnodup
  obtain ⟨hu0, hu1, hu2⟩ := hused
  have e0 := freeDesc_ok hl0 hu0
  have hu1' : ¬ (d.withBits (d.descFreeBitmap ||| (1#32 <<< c.head))).IsFree c.mid := by
    rw [isFree_withBits, getLsbD_set _ hl1]
    simpa [Ne.symm h01, Vring.IsFree] using hu1
  have e1 := freeDesc_ok hl1 hu1'
  rw [Vring.withBits_bits, Vring.withBits_withBits] at e1
  have hu2' : ¬ (d.withBits ((d.descFreeBitmap ||| (1#32 <<< c.head)) |||
      (1#32 <<< c.mid))).IsFree c.tail := by
    rw [isFree_withBits, getLsbD_set _ hl2, getLsbD_set _ hl2]
    simpa [Ne.symm h02, Ne.symm h12, Vring.IsFree] using hu2
  have e2 := freeDesc_ok hl2 hu2'
  rw [Vring.withBits_bits, Vring.withBits_withBits] at e2
  refine ⟨((d.descFreeBitmap ||| (1#32 <<< c.head)) ||| (1#32 <<< c.mid)) ||| (1#32 <<< c.tail),
    ?_, ?_⟩
  · simp only [freeChain, freeChainLoop, VIRTIO_QUEUE_NUM, e0, bind, Except.bind,
      if_pos h.headFlag, h.headNext, e1, Vring.withBits_desc, if_pos h.midFlag, h.midNext, e2,
      h.tailFlag, ne_eq, not_true_eq_false, if_false]
    rfl
  · intro j hj
    rw [getLsbD_set _ hj, getLsbD_set _ hj, getLsbD_set _ hj]
    simp [DescChain.toList, Bool.or_assoc]

end Mos.Kern
