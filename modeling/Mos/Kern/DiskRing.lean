import Mathlib.Data.List.Perm.Subperm
import Mathlib.Data.List.Flatten
import Mathlib.Data.List.Nodup
import Mathlib.Data.List.Pairwise
import Mos.Lib.Ring
import Mos.Kern.DiskDriver

/-!
# MOS on RISC-V — the disk rings over whole runs

The driver and the device as one system. The device keeps its own position in
the available ring and the heads it has taken; it returns each of them once,
in any order. The clients own the pages of their requests and may rewrite them
at any time.

`RingInv` splits the chains that are posted and not recycled into those the
device has not taken, those it works on and those it has returned. The
descriptors in use are exactly theirs, so at most ten chains are outstanding
and neither ring can overrun, wherever the 16-bit counters stand.
`diskRing_bookkeeping` is the result.
-/

namespace Mos.Kern

open Mos.Lib

structure RingState where
  disk : Vring
  devIdx : Nat                -- the device's position in the available ring
  inflight : List Nat         -- heads the device has taken and not returned
  chains : List DescChain     -- posted and not recycled

inductive RingOp where
  | req (pa : Nat)                             -- virtio_disk_req
  | clients (reqAt : Nat → VirtioBlkReq)       -- the request pages change
  | consume                                    -- the device takes the next head
  | complete (head len : Nat)                  -- the device returns a head
  | notify (on : Bool)                         -- the device sets used->flags
  | interrupt (status : Nat)
  | round                                      -- one round of virtio_disk_intr
  | intr                                       -- virtio_disk_intr

namespace RingState

/-- One round of `virtio_disk_intr` recycles the chain it reads. -/
def round (st : RingState) : Result RingState := do
  let disk ← intrRound st.disk
  return { st with disk := disk, chains := st.chains.filter (·.head ≠ usedHead st.disk) }

def rounds : Nat → RingState → Result RingState
  | 0, st => .ok st
  | n + 1, st => do
    let st ← st.round
    st.rounds n

end RingState

/-- A step the device cannot take leaves the state alone. -/
def RingOp.run (st : RingState) : RingOp → Result RingState
  | .req pa => do
    let (r, disk) ← virtioDiskReq st.disk pa
    let head := disk.avail.ring (st.disk.avail.idx % VIRTIO_QUEUE_NUM)
    return { st with
      disk := disk
      chains := if r = 0 then chainAt disk head :: st.chains else st.chains }
  | .clients reqAt => .ok { st with disk := { st.disk with reqAt := reqAt } }
  | .consume =>
    if st.devIdx = st.disk.avail.idx then .ok st
    else .ok { st with
      devIdx := (st.devIdx + 1) % 2 ^ 16
      inflight := st.disk.avail.ring (st.devIdx % VIRTIO_QUEUE_NUM) :: st.inflight }
  | .complete head len =>
    if head ∈ st.inflight then
      let used := { st.disk.used with
        ring := Function.update st.disk.used.ring (st.disk.used.idx % VIRTIO_QUEUE_NUM) ⟨head, len⟩
        idx := (st.disk.used.idx + 1) % 2 ^ 16 }
      .ok { st with disk := { st.disk with used := used }, inflight := st.inflight.erase head }
    else .ok st
  | .notify on =>
    let used := { st.disk.used with flags := if on then 0 else 1 }
    .ok { st with disk := { st.disk with used := used } }
  | .interrupt status => .ok { st with disk := { st.disk with interruptStatus := status } }
  | .round => if st.disk.usedIdx = st.disk.used.idx then .ok st else st.round
  | .intr =>
    { st with disk := intrAck st.disk }.rounds
      ((st.disk.used.idx + 2 ^ 16 - st.disk.usedIdx) % 2 ^ 16)

inductive RingReach (outhdrPa : Nat) (reqAt : Nat → VirtioBlkReq) : RingState → Prop where
  | init : RingReach outhdrPa reqAt ⟨virtioDiskInit outhdrPa reqAt, 0, [], []⟩
  | step {st st' : RingState} {op : RingOp} : RingReach outhdrPa reqAt st →
      op.run st = .ok st' → RingReach outhdrPa reqAt st'

/-- The ghost-carrying loop runs the driver's. -/
theorem RingState.rounds_disk (n : Nat) (st : RingState) :
    (st.rounds n).map RingState.disk = intrRounds n st.disk := by
  induction n generalizing st with
  | zero => rfl
  | succ n ih =>
    unfold RingState.rounds intrRounds RingState.round
    cases hr : intrRound st.disk with
    | error e => rfl
    | ok d => exact ih { st with disk := d, chains := st.chains.filter (·.head ≠ usedHead st.disk) }

/-- The `intr` step is `virtio_disk_intr`. -/
theorem RingOp.intr_disk (st : RingState) :
    (RingOp.intr.run st).map RingState.disk = virtioDiskIntr st.disk :=
  RingState.rounds_disk _ _

/-- The chains in `pend` wait in the available ring, those in `ret` in the used
ring, and the device has the rest. -/
structure RingInv (st : RingState) (pend ret : List Nat) : Prop where
  availWin : Window 32 (2 ^ 16) st.disk.avail.ring st.devIdx st.disk.avail.idx pend
  usedWin : Window 32 (2 ^ 16) (fun i => (st.disk.used.ring i).id) st.disk.usedIdx
    st.disk.used.idx ret
  heads : (st.chains.map DescChain.head).Perm (pend ++ st.inflight ++ ret)
  nodup : (st.chains.flatMap DescChain.toList).Nodup
  lt : ∀ c ∈ st.chains, ∀ i ∈ c.toList, i < 32
  bits : ∀ i < 32, ¬ st.disk.IsFree i ↔ ∃ c ∈ st.chains, i ∈ c.toList
  linked : ∀ c ∈ st.chains, Linked st.disk c
  flags : st.disk.used.flags = 0 ∨ st.disk.used.flags = 1

/-- What no step may touch: the descriptors of a chain that stays posted, and
the entries of the available ring the device has not read. -/
structure StepKeeps (st st' : RingState) : Prop where
  desc : ∀ c ∈ st.chains, c ∈ st'.chains → ∀ i ∈ c.toList, st'.disk.desc i = st.disk.desc i
  avail : ∀ i < (st.disk.avail.idx + 2 ^ 16 - st.devIdx) % 2 ^ 16,
    st'.disk.avail.ring ((st.devIdx + i) % 2 ^ 16 % VIRTIO_QUEUE_NUM) =
      st.disk.avail.ring ((st.devIdx + i) % 2 ^ 16 % VIRTIO_QUEUE_NUM)

theorem StepKeeps.of_eq {st st' : RingState} (hd : st'.disk.desc = st.disk.desc)
    (ha : st'.disk.avail.ring = st.disk.avail.ring) : StepKeeps st st' :=
  ⟨fun _ _ _ _ _ => by rw [hd], fun _ _ => by rw [ha]⟩

namespace RingInv

variable {st : RingState} {pend ret : List Nat}

-- ---------------------------------------------------------------------------
-- Counting
-- ---------------------------------------------------------------------------

/-- Thirty-two descriptors make at most ten chains. -/
theorem chains_length (h : RingInv st pend ret) : st.chains.length ≤ 10 := by
  have hsub : st.chains.flatMap DescChain.toList ⊆ List.range 32 := by
    intro i hi
    obtain ⟨c, hc, hic⟩ := List.mem_flatMap.mp hi
    exact List.mem_range.mpr (h.lt c hc i hic)
  have hlen := (h.nodup.subperm hsub).length_le
  have hthree : ∀ l : List DescChain, (l.flatMap DescChain.toList).length = 3 * l.length := by
    intro l
    induction l with
    | nil => rfl
    | cons c l ih =>
      rw [List.flatMap_cons, List.length_append, ih, List.length_cons]
      show 3 + 3 * l.length = _
      omega
  rw [hthree, List.length_range] at hlen
  omega

theorem length_eq (h : RingInv st pend ret) :
    st.chains.length = pend.length + st.inflight.length + ret.length := by
  have := h.heads.length_eq
  rw [List.length_map, List.length_append, List.length_append] at this
  exact this

theorem heads_nodup (h : RingInv st pend ret) : (st.chains.map DescChain.head).Nodup := by
  have hsub : List.Sublist (st.chains.map DescChain.head) (st.chains.flatMap DescChain.toList) := by
    generalize st.chains = l
    induction l with
    | nil => exact List.Sublist.refl _
    | cons c l ih =>
      rw [List.map_cons, List.flatMap_cons]
      exact (ih.trans (List.sublist_append_right [c.mid, c.tail] _)).cons_cons c.head
  exact h.nodup.sublist hsub

theorem pend_lt (h : RingInv st pend ret) : pend.length < 32 := by
  have h1 := h.chains_length
  have h2 := h.length_eq
  omega

theorem ret_lt (h : RingInv st pend ret) : ret.length < 32 := by
  have h1 := h.chains_length
  have h2 := h.length_eq
  omega

/-- The chain of an outstanding head. -/
theorem exists_chain (h : RingInv st pend ret) {x : Nat} (hx : x ∈ pend ++ st.inflight ++ ret) :
    ∃ c ∈ st.chains, c.head = x := by
  rw [← h.heads.mem_iff] at hx
  obtain ⟨c, hc, hcx⟩ := List.mem_map.mp hx
  exact ⟨c, hc, hcx⟩

/-- A descriptor belongs to one chain. -/
theorem chain_unique (h : RingInv st pend ret) {c c' : DescChain} (hc : c ∈ st.chains)
    (hc' : c' ∈ st.chains) {i : Nat} (hi : i ∈ c.toList) (hi' : i ∈ c'.toList) : c = c' := by
  by_contra hne
  have hsymm : Std.Symm (Function.onFun List.Disjoint DescChain.toList) :=
    ⟨fun _ _ hd => List.Disjoint.symm hd⟩
  exact (List.nodup_flatMap.mp h.nodup).2.forall hc hc' hne hi hi'

theorem toList_nodup (h : RingInv st pend ret) {c : DescChain} (hc : c ∈ st.chains) :
    c.toList.Nodup := (List.nodup_flatMap.mp h.nodup).1 c hc

/-- The rest of the invariant does not look at the clients' pages, the
registers or the flags the device sets. -/
theorem of_disk (h : RingInv st pend ret) (disk : Vring) (hdesc : disk.desc = st.disk.desc)
    (hring : disk.avail.ring = st.disk.avail.ring) (hidx : disk.avail.idx = st.disk.avail.idx)
    (huring : disk.used.ring = st.disk.used.ring) (huidx : disk.used.idx = st.disk.used.idx)
    (hui : disk.usedIdx = st.disk.usedIdx) (hbits : disk.descFreeBitmap = st.disk.descFreeBitmap)
    (hflags : disk.used.flags = 0 ∨ disk.used.flags = 1) :
    RingInv { st with disk := disk } pend ret := by
  refine ⟨?_, ?_, h.heads, h.nodup, h.lt, ?_, ?_, hflags⟩
  · show Window _ _ disk.avail.ring _ disk.avail.idx _
    rw [hring, hidx]
    exact h.availWin
  · show Window _ _ (fun i => (disk.used.ring i).id) disk.usedIdx disk.used.idx _
    rw [huring, hui, huidx]
    exact h.usedWin
  · intro i hi
    show ¬ disk.descFreeBitmap.getLsbD i = true ↔ _
    rw [hbits]
    exact h.bits i hi
  · intro c hc
    exact (h.linked c hc).congr (fun i _ => by rw [hdesc])

-- ---------------------------------------------------------------------------
-- The driver posts a request
-- ---------------------------------------------------------------------------

theorem fillDesc_other {d : Vring} {req i₀ i₁ i₂ i : Nat} (hi : i ∉ [i₀, i₁, i₂]) :
    fillDesc d req i₀ i₁ i₂ i = d.desc i := by
  simp only [List.mem_cons, List.not_mem_nil, or_false, not_or] at hi
  unfold fillDesc
  simp only [Function.update_of_ne hi.1, Function.update_of_ne hi.2.1, Function.update_of_ne hi.2.2]

/-- The three descriptors are written as a chain. -/
theorem postReq_linked (d : Vring) (req : Nat) {i₀ i₁ i₂ : Nat} (hn : [i₀, i₁, i₂].Nodup) :
    Linked (postReq d req i₀ i₁ i₂) ⟨i₀, i₁, i₂⟩ := by
  simp only [List.nodup_cons, List.mem_cons, List.not_mem_nil, or_false, not_or] at hn
  obtain ⟨⟨h01, h02⟩, h12, -⟩ := hn
  have e0 : (postReq d req i₀ i₁ i₂).desc i₀ =
      ⟨d.outhdrPa + 16 * i₀, 16, VRING_DESC_F_NEXT, i₁⟩ := by
    simp [postReq, fillDesc, h01, h02]
  have e1 : (postReq d req i₀ i₁ i₂).desc i₁ = ⟨req + 6, DISK_BUFFUER_LEN,
      (if (d.reqAt req).write ≠ 0 then 0 else VRING_DESC_F_WRITE) ||| VRING_DESC_F_NEXT, i₂⟩ := by
    simp [postReq, fillDesc, h12]
  have e2 : (postReq d req i₀ i₁ i₂).desc i₂ = ⟨req + 5, 1, VRING_DESC_F_WRITE, 0⟩ := by
    simp [postReq, fillDesc]
  refine ⟨?_, ?_, ?_, ?_, ?_⟩
  · rw [e0]
  · rw [e0]
    show VRING_DESC_F_NEXT &&& VRING_DESC_F_NEXT ≠ 0
    decide
  · rw [e1]
  · rw [e1]
    show ((if (d.reqAt req).write ≠ 0 then 0 else VRING_DESC_F_WRITE) ||| VRING_DESC_F_NEXT) &&&
      VRING_DESC_F_NEXT ≠ 0
    split_ifs
    · decide
    · decide
  · rw [e2]
    show VRING_DESC_F_WRITE &&& VRING_DESC_F_NEXT = 0
    decide

/-- Posting a chain of free descriptors. -/
theorem post (h : RingInv st pend ret) (req : Nat) {i₀ i₁ i₂ : Nat} {b : BitVec 32}
    (hlt : ∀ i ∈ [i₀, i₁, i₂], i < 32) (hn : [i₀, i₁, i₂].Nodup)
    (hfree : ∀ i ∈ [i₀, i₁, i₂], st.disk.IsFree i)
    (hb : ∀ j < 32, b.getLsbD j = (st.disk.descFreeBitmap.getLsbD j && !decide (j ∈ [i₀, i₁, i₂]))) :
    RingInv { st with
        disk := postReq (st.disk.withBits b) req i₀ i₁ i₂
        chains := ⟨i₀, i₁, i₂⟩ :: st.chains } (pend ++ [i₀]) ret ∧
      StepKeeps st { st with
        disk := postReq (st.disk.withBits b) req i₀ i₁ i₂
        chains := ⟨i₀, i₁, i₂⟩ :: st.chains } := by
  -- a free descriptor is in no chain
  have hnew : ∀ c ∈ st.chains, ∀ i ∈ c.toList, i ∉ [i₀, i₁, i₂] := by
    intro c hc i hi hmem
    exact ((h.bits i (hlt i hmem)).mpr ⟨c, hc, hi⟩) (hfree i hmem)
  have hdesc : ∀ c ∈ st.chains, ∀ i ∈ c.toList,
      (postReq (st.disk.withBits b) req i₀ i₁ i₂).desc i = st.disk.desc i :=
    fun c hc i hi => fillDesc_other (hnew c hc i hi)
  refine ⟨⟨?_, h.usedWin, ?_, ?_, ?_, ?_, ?_, h.flags⟩, ?_, ?_⟩
  · exact h.availWin.push (by decide) h.pend_lt i₀
  · have hperm : (i₀ :: st.chains.map DescChain.head).Perm (i₀ :: (pend ++ st.inflight ++ ret)) :=
      h.heads.cons i₀
    refine hperm.trans ?_
    rw [List.append_assoc, List.append_assoc, List.append_assoc]
    exact List.perm_middle.symm
  · rw [List.flatMap_cons]
    refine List.Nodup.append hn h.nodup ?_
    intro i hi hi'
    obtain ⟨c, hc, hic⟩ := List.mem_flatMap.mp hi'
    exact hnew c hc i hic hi
  · intro c hc i hi
    rcases List.mem_cons.mp hc with rfl | hc
    · exact hlt i hi
    · exact h.lt c hc i hi
  · intro i hi
    show ¬ b.getLsbD i = true ↔ _
    rw [hb i hi]
    have hbits := h.bits i hi
    unfold Vring.IsFree at hbits
    by_cases hmem : i ∈ [i₀, i₁, i₂]
    · refine ⟨fun _ => ⟨_, List.mem_cons_self .., hmem⟩, fun _ => ?_⟩
      simp [hmem]
    · simp only [hmem, decide_false, Bool.not_false, Bool.and_true, hbits]
      constructor
      · intro ⟨c, hc, hic⟩
        exact ⟨c, List.mem_cons_of_mem _ hc, hic⟩
      · intro ⟨c, hc, hic⟩
        rcases List.mem_cons.mp hc with rfl | hc
        · exact absurd hic hmem
        · exact ⟨c, hc, hic⟩
  · intro c hc
    rcases List.mem_cons.mp hc with rfl | hc
    · exact postReq_linked _ _ hn
    · exact (h.linked c hc).congr (hdesc c hc)
  · intro c hc _ i hi
    exact hdesc c hc i hi
  · intro i hi
    rw [h.availWin.length_eq (by have := h.pend_lt; omega)] at hi
    exact Function.update_of_ne (h.availWin.slot_ne (by decide) h.pend_lt hi) ..

/-- A request that does not get its descriptors changes nothing. -/
theorem virtioDiskReq_cases (d : Vring) (req : Nat) (hf : d.used.flags = 0 ∨ d.used.flags = 1) :
    (∃ r < 0, virtioDiskReq d req = .ok (r, d)) ∨
    ∃ i₀ i₁ i₂ b n, (∀ i ∈ [i₀, i₁, i₂], i < 32) ∧ [i₀, i₁, i₂].Nodup ∧
      (∀ i ∈ [i₀, i₁, i₂], d.IsFree i) ∧
      (∀ j < 32, b.getLsbD j = (d.descFreeBitmap.getLsbD j && !decide (j ∈ [i₀, i₁, i₂]))) ∧
      virtioDiskReq d req =
        .ok (0, { postReq (d.withBits b) req i₀ i₁ i₂ with queueNotify := n }) := by
  unfold virtioDiskReq
  by_cases hreq : req < KSTACKTOP
  · left
    rw [if_pos hreq]
    exact ⟨-E_INVAL, by decide, rfl⟩
  · rw [if_neg hreq]
    rcases alloc3Desc_spec d with he | ⟨i₀, i₁, i₂, b, h0, h1, h2, hn, f0, f1, f2, he, hb⟩
    · left
      refine ⟨-E_NO_RING_DESC, by decide, ?_⟩
      simp only [he, bind, Except.bind, pure, Except.pure]
    · right
      have hflags : (postReq (d.withBits b) req i₀ i₁ i₂).used.flags = d.used.flags := rfl
      rcases hf with hf | hf
      · refine ⟨i₀, i₁, i₂, b, d.queueNotify + 1, by simp [h0, h1, h2], hn, by simp [f0, f1, f2],
          hb, ?_⟩
        simp only [he, bind, Except.bind, pure, Except.pure, hflags, hf, if_true]
        rfl
      · refine ⟨i₀, i₁, i₂, b, d.queueNotify, by simp [h0, h1, h2], hn, by simp [f0, f1, f2],
          hb, ?_⟩
        simp only [he, bind, Except.bind, pure, Except.pure, hflags, hf, one_ne_zero, if_false,
          ne_eq, not_true_eq_false]
        rfl

theorem step_req (h : RingInv st pend ret) (pa : Nat) : ∃ st' pend',
    (RingOp.req pa).run st = .ok st' ∧ RingInv st' pend' ret ∧ StepKeeps st st' := by
  rcases virtioDiskReq_cases st.disk pa h.flags with ⟨r, hr, he⟩ | ⟨i₀, i₁, i₂, b, n, hlt, hn, hfree, hb, he⟩
  · refine ⟨st, pend, ?_, h, StepKeeps.of_eq rfl rfl⟩
    simp only [RingOp.run, he, bind, Except.bind, pure, Except.pure, if_neg (Int.ne_of_lt hr)]
  · obtain ⟨hinv, hkeep⟩ := h.post pa hlt hn hfree hb
    have hinv' := hinv.of_disk { postReq (st.disk.withBits b) pa i₀ i₁ i₂ with
      queueNotify := n } rfl rfl rfl rfl rfl rfl rfl h.flags
    refine ⟨_, pend ++ [i₀], ?_, hinv', ⟨hkeep.desc, hkeep.avail⟩⟩
    have hhead : (postReq (st.disk.withBits b) pa i₀ i₁ i₂).avail.ring
        (st.disk.avail.idx % VIRTIO_QUEUE_NUM) = i₀ := Function.update_self ..
    have hchain := (postReq_linked (st.disk.withBits b) pa hn).chainAt_eq
    simp only [RingOp.run, he, bind, Except.bind, pure, Except.pure, hhead, if_true]
    congr 3

-- ---------------------------------------------------------------------------
-- The device
-- ---------------------------------------------------------------------------

/-- The device takes the head that has waited longest. -/
theorem consume_head {x : Nat} (h : RingInv st (x :: pend) ret) : st.devIdx ≠ st.disk.avail.idx ∧
    st.disk.avail.ring (st.devIdx % VIRTIO_QUEUE_NUM) = x ∧
    ∃ st', RingOp.consume.run st = .ok st' ∧ RingInv st' pend ret ∧ st'.disk = st.disk := by
  have he : st.devIdx ≠ st.disk.avail.idx := by
    intro he
    exact absurd ((h.availWin.lo_eq_hi_iff (by have := h.pend_lt; omega)).mp he) (List.cons_ne_nil _ _)
  obtain ⟨hx, hwin⟩ := h.availWin.pop
  refine ⟨he, hx, _, if_neg he, ⟨hwin, h.usedWin, ?_, h.nodup, h.lt, h.bits, h.linked, h.flags⟩, rfl⟩
  show (st.chains.map DescChain.head).Perm
    (pend ++ (st.disk.avail.ring (st.devIdx % 32) :: st.inflight) ++ ret)
  rw [hx]
  refine h.heads.trans ?_
  rw [List.append_assoc, List.append_assoc]
  exact List.perm_middle.symm

theorem step_consume (h : RingInv st pend ret) : ∃ st' pend',
    RingOp.consume.run st = .ok st' ∧ RingInv st' pend' ret ∧ StepKeeps st st' := by
  cases pend with
  | nil =>
    have he : st.devIdx = st.disk.avail.idx := (h.availWin.lo_eq_hi_iff (by decide)).mpr rfl
    exact ⟨st, [], if_pos he, h, StepKeeps.of_eq rfl rfl⟩
  | cons x pend =>
    obtain ⟨-, -, st', hrun, hinv, hd⟩ := h.consume_head
    exact ⟨st', pend, hrun, hinv, StepKeeps.of_eq (by rw [hd]) (by rw [hd])⟩

theorem step_complete (h : RingInv st pend ret) (head len : Nat) : ∃ st' ret',
    (RingOp.complete head len).run st = .ok st' ∧ RingInv st' pend ret' ∧ StepKeeps st st' := by
  unfold RingOp.run
  by_cases hm : head ∈ st.inflight
  · refine ⟨_, ret ++ [head], if_pos hm, ⟨h.availWin, ?_, ?_, h.nodup, h.lt, h.bits, ?_, h.flags⟩,
      StepKeeps.of_eq rfl rfl⟩
    · have hpush := h.usedWin.push (by decide) h.ret_lt head
      have hfun : (fun i => (Function.update st.disk.used.ring
          (st.disk.used.idx % VIRTIO_QUEUE_NUM) (⟨head, len⟩ : VringUsedElem) i).id) =
          Function.update (fun i => (st.disk.used.ring i).id)
            (st.disk.used.idx % VIRTIO_QUEUE_NUM) head := by
        funext i
        by_cases hi : i = st.disk.used.idx % VIRTIO_QUEUE_NUM
        · rw [hi, Function.update_self, Function.update_self]
        · rw [Function.update_of_ne hi, Function.update_of_ne hi]
      show Window _ _ (fun i => (Function.update st.disk.used.ring
          (st.disk.used.idx % VIRTIO_QUEUE_NUM) (⟨head, len⟩ : VringUsedElem) i).id) _ _ _
      rw [hfun]
      exact hpush
    · refine h.heads.trans ?_
      show (pend ++ st.inflight ++ ret).Perm (pend ++ st.inflight.erase head ++ (ret ++ [head]))
      rw [List.append_assoc, List.append_assoc]
      apply List.Perm.append_left
      have h1 : (st.inflight ++ ret).Perm (head :: (st.inflight.erase head ++ ret)) :=
        (List.perm_cons_erase hm).append_right ret
      refine h1.trans ?_
      rw [← List.append_assoc]
      exact (List.perm_append_singleton head _).symm
    · intro c hc
      exact (h.linked c hc).congr (fun i _ => rfl)
  · exact ⟨st, ret, if_neg hm, h, StepKeeps.of_eq rfl rfl⟩

-- ---------------------------------------------------------------------------
-- The driver recycles
-- ---------------------------------------------------------------------------

/-- The chain at the driver's position in the used ring, and what freeing it does. -/
theorem used_chain {x : Nat} (h : RingInv st pend (x :: ret)) :
    ∃ c ∈ st.chains, c.head = x ∧ usedHead st.disk = x ∧
      ∃ b, freeChain st.disk (usedHead st.disk) = .ok (st.disk.withBits b) ∧
        ∀ j < 32, b.getLsbD j = (st.disk.descFreeBitmap.getLsbD j || decide (j ∈ c.toList)) := by
  obtain ⟨hx, -⟩ := h.usedWin.pop
  obtain ⟨c, hc, hcx⟩ := h.exists_chain (x := x) (by simp)
  have hused : usedHead st.disk = x := hx
  obtain ⟨b, he, hb⟩ := freeChain_spec (h.linked c hc) (h.lt c hc) (h.toList_nodup hc)
    (fun i hi => (h.bits i (h.lt c hc i hi)).mpr ⟨c, hc, hi⟩)
  refine ⟨c, hc, hcx, hused, b, ?_, hb⟩
  rw [hused, ← hcx]
  exact he

/-- One round gives back the first chain of the used ring. -/
theorem step_round {x : Nat} (h : RingInv st pend (x :: ret)) : ∃ st',
    st.round = .ok st' ∧ RingInv st' pend ret ∧ StepKeeps st st' ∧
      st'.disk.desc = st.disk.desc ∧ st'.disk.avail = st.disk.avail ∧ st'.devIdx = st.devIdx := by
  obtain ⟨c, hc, hcx, hused, b, he, hb⟩ := h.used_chain
  obtain ⟨-, hwin⟩ := h.usedWin.pop
  have hkeep : ∀ c', c' ∈ st.chains.filter (·.head ≠ usedHead st.disk) ↔
      c' ∈ st.chains ∧ c' ≠ c := by
    intro c'
    rw [List.mem_filter, decide_eq_true_eq, hused, ← hcx]
    refine and_congr_right fun hc' => ?_
    refine ⟨fun hne he => hne (by rw [he]), fun hne he => hne ?_⟩
    exact h.chain_unique hc' hc (i := c'.head) (by simp [DescChain.toList])
      (by simp [DescChain.toList, he])
  have hround : st.round = .ok { st with
      disk := { st.disk.withBits b with usedIdx := (st.disk.usedIdx + 1) % 2 ^ 16 }
      chains := st.chains.filter (·.head ≠ usedHead st.disk) } := by
    unfold RingState.round intrRound
    rw [he]
    rfl
  refine ⟨_, hround, ⟨h.availWin, hwin, ?_, ?_, ?_, ?_, ?_, h.flags⟩, StepKeeps.of_eq rfl rfl,
    rfl, rfl, rfl⟩
  · have hnodup := h.heads_nodup
    rw [h.heads.nodup_iff] at hnodup
    have hx : x ∉ pend ++ st.inflight ∧ x ∉ ret := by
      rw [List.nodup_append] at hnodup
      obtain ⟨-, hr, hdis⟩ := hnodup
      exact ⟨fun hin => hdis x hin x (List.mem_cons_self ..) rfl, (List.nodup_cons.mp hr).1⟩
    have hfilter : ∀ l : List Nat, x ∉ l → l.filter (fun y => y ≠ x) = l := by
      intro l hl
      rw [List.filter_eq_self]
      intro y hy
      rw [decide_eq_true_eq]
      rintro rfl
      exact hl hy
    have hperm := h.heads.filter (fun y => y ≠ x)
    rw [List.filter_append, hfilter _ hx.1, List.filter_cons, hfilter _ hx.2] at hperm
    simp only [ne_eq, not_true_eq_false, decide_false, Bool.false_eq_true, if_false] at hperm
    refine List.Perm.trans (List.Perm.of_eq ?_) hperm
    rw [List.filter_map, hused]
    rfl
  · have hsub : List.Sublist (st.chains.filter (·.head ≠ usedHead st.disk)) st.chains :=
      List.filter_sublist
    exact h.nodup.sublist (hsub.flatMap _)
  · intro c' hc'
    exact h.lt c' ((hkeep c').mp hc').1
  · intro i hi
    show ¬ b.getLsbD i = true ↔ _
    have hbits := h.bits i hi
    unfold Vring.IsFree at hbits
    rw [hb i hi]
    by_cases hic : i ∈ c.toList
    · refine ⟨fun hno => absurd (by simp [hic]) hno, ?_⟩
      rintro ⟨c', hc', hic'⟩
      obtain ⟨hmem, hne⟩ := (hkeep c').mp hc'
      exact absurd (h.chain_unique hmem hc hic' hic) hne
    · simp only [hic, decide_false, Bool.or_false, hbits]
      constructor
      · rintro ⟨c', hc', hic'⟩
        refine ⟨c', (hkeep c').mpr ⟨hc', ?_⟩, hic'⟩
        rintro rfl
        exact hic hic'
      · rintro ⟨c', hc', hic'⟩
        exact ⟨c', ((hkeep c').mp hc').1, hic'⟩
  · intro c' hc'
    exact (h.linked c' ((hkeep c').mp hc').1).congr (fun i _ => rfl)

/-- The loop of `virtio_disk_intr` recycles the whole used window. -/
theorem rounds_ok (h : RingInv st pend ret) : ∃ st',
    st.rounds ret.length = .ok st' ∧ RingInv st' pend [] ∧
      st'.disk.desc = st.disk.desc ∧ st'.disk.avail = st.disk.avail := by
  induction ret generalizing st with
  | nil => exact ⟨st, rfl, h, rfl, rfl⟩
  | cons x ret ih =>
    obtain ⟨st₁, hr, hinv, -, hd, ha, -⟩ := h.step_round
    obtain ⟨st', hrs, hinv', hd', ha'⟩ := ih hinv
    refine ⟨st', ?_, hinv', hd'.trans hd, ha'.trans ha⟩
    unfold RingState.rounds
    rw [List.length_cons]
    simp only [hr, bind, Except.bind]
    exact hrs

theorem step_intr (h : RingInv st pend ret) : ∃ st',
    RingOp.intr.run st = .ok st' ∧ RingInv st' pend [] ∧ StepKeeps st st' := by
  have hack : RingInv { st with disk := intrAck st.disk } pend ret := by
    unfold intrAck
    split_ifs
    · exact h.of_disk _ rfl rfl rfl rfl rfl rfl rfl h.flags
    · exact h
  have hdesc : (intrAck st.disk).desc = st.disk.desc ∧ (intrAck st.disk).avail = st.disk.avail := by
    unfold intrAck
    split_ifs
    · exact ⟨rfl, rfl⟩
    · exact ⟨rfl, rfl⟩
  obtain ⟨st', hr, hinv, hd, ha⟩ := hack.rounds_ok
  refine ⟨st', ?_, hinv, StepKeeps.of_eq (hd.trans hdesc.1) (by rw [ha]; exact congrArg _ hdesc.2)⟩
  unfold RingOp.run
  simp only
  rw [h.usedWin.length_eq (by have := h.ret_lt; omega)]
  exact hr

/-- **Step lemma.** No step panics, and every step keeps the invariant, the
descriptors of the chains that stay and the unread entries. -/
theorem step (h : RingInv st pend ret) (op : RingOp) : ∃ st' pend' ret',
    op.run st = .ok st' ∧ RingInv st' pend' ret' ∧ StepKeeps st st' := by
  cases op with
  | req pa =>
    obtain ⟨st', pend', hr, hinv, hk⟩ := h.step_req pa
    exact ⟨st', pend', ret, hr, hinv, hk⟩
  | clients reqAt =>
    exact ⟨_, pend, ret, rfl, h.of_disk _ rfl rfl rfl rfl rfl rfl rfl h.flags, StepKeeps.of_eq rfl rfl⟩
  | consume =>
    obtain ⟨st', pend', hr, hinv, hk⟩ := h.step_consume
    exact ⟨st', pend', ret, hr, hinv, hk⟩
  | complete head len =>
    obtain ⟨st', ret', hr, hinv, hk⟩ := h.step_complete head len
    exact ⟨st', pend, ret', hr, hinv, hk⟩
  | notify on =>
    refine ⟨_, pend, ret, rfl, h.of_disk _ rfl rfl rfl rfl rfl rfl rfl ?_, StepKeeps.of_eq rfl rfl⟩
    cases on with
    | true => exact Or.inl rfl
    | false => exact Or.inr rfl
  | interrupt status =>
    exact ⟨_, pend, ret, rfl, h.of_disk _ rfl rfl rfl rfl rfl rfl rfl h.flags, StepKeeps.of_eq rfl rfl⟩
  | round =>
    unfold RingOp.run
    by_cases he : st.disk.usedIdx = st.disk.used.idx
    · exact ⟨st, pend, ret, if_pos he, h, StepKeeps.of_eq rfl rfl⟩
    · cases hr : ret with
      | nil => exact absurd ((h.usedWin.lo_eq_hi_iff (by have := h.ret_lt; omega)).mpr hr) he
      | cons x ret' =>
        subst hr
        obtain ⟨st', hr, hinv, hk, -⟩ := h.step_round
        exact ⟨st', pend, ret', (if_neg he).trans hr, hinv, hk⟩
  | intr =>
    obtain ⟨st', hr, hinv, hk⟩ := h.step_intr
    exact ⟨st', pend, [], hr, hinv, hk⟩

end RingInv

-- ---------------------------------------------------------------------------
-- Runs
-- ---------------------------------------------------------------------------

/-- **Run lemma.** -/
theorem RingReach.inv {outhdrPa : Nat} {reqAt : Nat → VirtioBlkReq} {st : RingState}
    (h : RingReach outhdrPa reqAt st) : ∃ pend ret, RingInv st pend ret := by
  induction h with
  | init =>
    have hz : 0 < 2 ^ 16 := by decide
    refine ⟨[], [], Window.empty hz, Window.empty hz, List.Perm.refl _,
      List.nodup_nil, by simp, ?_, by simp, Or.inl rfl⟩
    intro i hi
    rw [Vring.IsFree, virtioDiskInit, BitVec.getLsbD_allOnes, decide_eq_true hi]
    simp
  | step _ hrun ih =>
    obtain ⟨pend, ret, hinv⟩ := ih
    obtain ⟨st', pend', ret', hrun', hinv', -⟩ := hinv.step _
    rw [hrun] at hrun'
    obtain rfl := Except.ok.inj hrun'
    exact ⟨pend', ret', hinv'⟩

/-- **Ring bookkeeping.** In every state of every run of the driver against a
device that returns each head once: no step panics; the descriptors in use are
exactly those of the posted chains, which are disjoint; the chain at the
driver's position in the used ring is a posted one and `free_chain` frees its
three descriptors and no other; no step rewrites a descriptor of a chain that
stays posted or an entry the device has not read; and a request that finds too
few descriptors changes nothing. -/
theorem diskRing_bookkeeping {outhdrPa : Nat} {reqAt : Nat → VirtioBlkReq} {st : RingState}
    (hreach : RingReach outhdrPa reqAt st) :
    (∀ op : RingOp, ∃ st', op.run st = .ok st') ∧
    (st.chains.flatMap DescChain.toList).Nodup ∧
    (∀ i < 32, ¬ st.disk.IsFree i ↔ ∃ c ∈ st.chains, i ∈ c.toList) ∧
    (st.disk.usedIdx ≠ st.disk.used.idx → ∃ c ∈ st.chains, c.head = usedHead st.disk ∧
      ∃ d', freeChain st.disk (usedHead st.disk) = .ok d' ∧
        ∀ i < 32, d'.IsFree i ↔ st.disk.IsFree i ∨ i ∈ c.toList) ∧
    (∀ (op : RingOp) (st' : RingState), op.run st = .ok st' → ∀ c ∈ st.chains, c ∈ st'.chains →
      ∀ i ∈ c.toList, st'.disk.desc i = st.disk.desc i) ∧
    (∀ (op : RingOp) (st' : RingState), op.run st = .ok st' →
      ∀ i < (st.disk.avail.idx + 2 ^ 16 - st.devIdx) % 2 ^ 16,
        st'.disk.avail.ring ((st.devIdx + i) % 2 ^ 16 % VIRTIO_QUEUE_NUM) =
          st.disk.avail.ring ((st.devIdx + i) % 2 ^ 16 % VIRTIO_QUEUE_NUM)) ∧
    (∀ (pa : Nat) (d' : Vring), virtioDiskReq st.disk pa = .ok (-E_NO_RING_DESC, d') →
      d' = st.disk) := by
  obtain ⟨pend, ret, h⟩ := hreach.inv
  have hkeeps : ∀ (op : RingOp) (st' : RingState), op.run st = .ok st' → StepKeeps st st' := by
    intro op st' hrun
    obtain ⟨st'', -, -, hrun', -, hk⟩ := h.step op
    rw [hrun] at hrun'
    obtain rfl := Except.ok.inj hrun'
    exact hk
  refine ⟨?_, h.nodup, h.bits, ?_, fun op st' hrun => (hkeeps op st' hrun).desc,
    fun op st' hrun => (hkeeps op st' hrun).avail, ?_⟩
  · intro op
    obtain ⟨st', -, -, hrun, -⟩ := h.step op
    exact ⟨st', hrun⟩
  · intro hne
    cases hr : ret with
    | nil => exact absurd ((h.usedWin.lo_eq_hi_iff (by have := h.ret_lt; omega)).mpr hr) hne
    | cons x ret' =>
      subst hr
      obtain ⟨c, hc, hcx, hused, b, he, hb⟩ := h.used_chain
      refine ⟨c, hc, hcx.trans hused.symm, _, he, ?_⟩
      intro i hi
      show b.getLsbD i = true ↔ _
      rw [hb i hi]
      simp [Vring.IsFree]
  · intro pa d' he
    rcases RingInv.virtioDiskReq_cases st.disk pa h.flags with ⟨r, -, he'⟩ | ⟨_, _, _, _, _, -, -, -, -, he'⟩
    · rw [he] at he'
      exact (Prod.mk.inj (Except.ok.inj he')).2
    · rw [he] at he'
      have := (Prod.mk.inj (Except.ok.inj he')).1
      exact absurd this (by decide)

theorem diskRing_bookkeeping_posted : ∃ st, RingReach KERNBASE (fun _ => ⟨0, 0, 0⟩) st ∧
    st.chains = [⟨0, 1, 2⟩] ∧ (∃ st', RingOp.consume.run st = .ok st') ∧ ¬ st.disk.IsFree 1 := by
  obtain ⟨st, hst⟩ : ∃ st, (RingOp.req KSTACKTOP).run
      ⟨virtioDiskInit KERNBASE fun _ => ⟨0, 0, 0⟩, 0, [], []⟩ = .ok st := ⟨_, rfl⟩
  have hreach : RingReach KERNBASE (fun _ => ⟨0, 0, 0⟩) st := .step .init hst
  obtain ⟨hrun, -, hbits, -⟩ := diskRing_bookkeeping hreach
  have hchains : st.chains = [⟨0, 1, 2⟩] := by
    have := Except.ok.inj hst
    rw [← this]
    rfl
  refine ⟨st, hreach, hchains, hrun .consume, ?_⟩
  rw [hbits 1 (by decide), hchains]
  exact ⟨⟨0, 1, 2⟩, by decide, by decide⟩

end Mos.Kern
