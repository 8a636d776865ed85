import Mos.Fs.Cache
import Mos.Kern.DiskRing

/-!
# MOS on RISC-V — reading and writing sectors

`ide_read` and `ide_write` send one request for each sector, all of them from the same page:
a request is written, handed to the driver until it has descriptors for it, and polled until
its status is no longer `0xff`. The device takes the heads from the available ring, works on
each when it likes, and returns it when it likes.

Main results:

* `IdeInv.step` — the call with the driver and the device: at most one request is out, and
  what it says is what the call wants;
* `ideCall_right_iff` — a call that returns has moved the sectors, and no request has failed,
  exactly if the device has completed all of them with status 0.
-/

namespace Mos.Fs

open Mos.Lib Mos.Kern

def BY2SECT : Nat := 512

abbrev Sector := Fin BY2SECT → BitVec 8

-- ---------------------------------------------------------------------------
-- The call, the driver and the device
-- ---------------------------------------------------------------------------

/-- Where the call is; `off` as in the code. -/
inductive IdePc where
  | fill (off : Nat)         -- at the test of the loop
  | post (off : Nat)         -- `syscall_dev_req`
  | poll (off : Nat)         -- `req->status == 0xff`
  | returned
  | panicked
  deriving DecidableEq, Repr

/-- `ide_write(8, secno, buf, nsecs)` or `ide_read(8, secno, buf, nsecs)`; the page at `REQVA`
is mapped at `pa`. -/
structure IdeCall where
  isWrite : Bool
  secno : Nat
  nsecs : Nat
  pa : Nat

structure IdeState where
  ring : RingState
  bufAt : Nat → Sector             -- the data buffers, by physical address
  sectors : Nat → Sector           -- the disk
  unserved : List Nat              -- heads the device has taken and not worked on
  mem : Nat → BitVec 8             -- the caller's buffer, by offset
  pc : IdePc

inductive IdeOp where
  | proc                                                 -- the call goes on
  | consume                                              -- the device takes the next head
  | serve (head status : Nat) (lost : Sector)            -- the device works on a head
  | device (op : RingOp)                                 -- the rest of the device, and interrupts

namespace IdeState

variable (c : IdeCall) (s : IdeState)

def setReq (pa : Nat) (r : VirtioBlkReq) : IdeState :=
  let disk := s.ring.disk
  { s with ring := { s.ring with disk := { disk with reqAt := Function.update disk.reqAt pa r } } }

/-- `BY2SECT` bytes of the caller's buffer. -/
def chunk (mem : Nat → BitVec 8) (off : Nat) : Sector := fun i => mem (off + i)

/-- `memcpy(dst + off, req->buf, BY2SECT)`. -/
def copySector (mem : Nat → BitVec 8) (off : Nat) (b : Sector) : Nat → BitVec 8 := fun x =>
  if h : off ≤ x ∧ x < off + BY2SECT then b ⟨x - off, by omega⟩ else mem x

/-- Where `req->buf` is. -/
def bufPa (pa : Nat) : Nat := pa + 6

/-- The head of the loop, up to the system call. -/
def fill (off : Nat) : IdeState :=
  let start := c.secno * BY2SECT % 2 ^ 32
  let stop := (start + c.nsecs * BY2SECT) % 2 ^ 32
  if (start + off) % 2 ^ 32 < stop then
    let r := s.ring.disk.reqAt c.pa
    let s := s.setReq c.pa { r with sector := (c.secno + off / BY2SECT) % 2 ^ 32, write := c.isWrite.toNat }
    let bufAt := if c.isWrite then Function.update s.bufAt (bufPa c.pa) (chunk s.mem off) else s.bufAt
    { s with bufAt, pc := .post off }
  else { s with pc := .returned }

/-- `syscall_dev_req(8, req)`, with what follows it; `none` is a panic of the kernel. -/
def post (off : Nat) : Option IdeState :=
  match virtioDiskReq s.ring.disk c.pa, (RingOp.req c.pa).run s.ring with
  | .ok (r, _), .ok ring =>
    if r = -E_NO_RING_DESC then some { s with ring }
    else if r < 0 then some { s with ring, pc := .panicked }
    else some { s with ring, pc := .poll off }
  | _, _ => none

/-- The caller's buffer when a request is finished. -/
def landed (off : Nat) : Nat → BitVec 8 :=
  if c.isWrite then s.mem else copySector s.mem off (s.bufAt (bufPa c.pa))

/-- The loop on `req->status`, and what follows it. -/
def poll (off : Nat) : IdeState :=
  if (s.ring.disk.reqAt c.pa).status = DISK_STATUS_NO_RESP then s
  else { s with mem := s.landed c off, pc := .fill ((off + BY2SECT) % 2 ^ 32) }

def proc : Option IdeState :=
  match s.pc with
  | .fill off => some (s.fill c off)
  | .post off => s.post c off
  | .poll off => some (s.poll c off)
  | .returned | .panicked => some s

/-- The device works on the request at `head`: status 0 after the transfer, or an error, which
leaves `lost` where the bytes should have gone. -/
def serve (head status : Nat) (lost : Sector) : IdeState :=
  let disk := s.ring.disk
  let ch := chainAt disk head
  let hdr := disk.outhdr (((disk.desc ch.head).addr - disk.outhdrPa) / 16)
  let data := (disk.desc ch.mid).addr
  let statusPa := (disk.desc ch.tail).addr
  let s := s.setReq (statusPa - 5) { disk.reqAt (statusPa - 5) with status }
  let s := { s with unserved := s.unserved.erase head }
  if hdr.type = VIRTIO_BLK_T_OUT then
    { s with sectors := Function.update s.sectors hdr.sector (if status = 0 then s.bufAt data else lost) }
  else
    { s with bufAt := Function.update s.bufAt data (if status = 0 then s.sectors hdr.sector else lost) }

/-- A step, if it can be taken. The device returns a head only after it has worked on it. -/
def run : IdeOp → Option IdeState
  | .proc => s.proc c
  | .consume =>
    if s.ring.devIdx = s.ring.disk.avail.idx then none
    else
      match RingOp.consume.run s.ring with
      | .ok ring =>
        some { s with ring, unserved := s.ring.disk.avail.ring (s.ring.devIdx % VIRTIO_QUEUE_NUM) :: s.unserved }
      | .error _ => none
  | .serve head status lost => if head ∈ s.unserved then some (s.serve head status lost) else none
  | .device op =>
    match op with
    | .req _ | .clients _ | .consume => none
    | .complete head _ =>
      if head ∈ s.unserved then none else (op.run s.ring).toOption.map fun ring => { s with ring }
    | _ => (op.run s.ring).toOption.map fun ring => { s with ring }

def runs : List IdeOp → IdeState → Option IdeState
  | [], s => some s
  | op :: ops, s => (s.run c op).bind (runs ops)

end IdeState

-- ---------------------------------------------------------------------------
-- What the calls should do
-- ---------------------------------------------------------------------------

/-- The device has completed all requests with status 0. -/
def AllServed (ops : List IdeOp) : Prop := ∀ head status lost, IdeOp.serve head status lost ∈ ops → status = 0

/-- The sectors are moved, and no others; where a request has failed, there is no return. -/
structure IdeRight (c : IdeCall) (s : IdeState) (ops : List IdeOp) (s' : IdeState) : Prop where
  written : c.isWrite = true → (∀ k < c.nsecs, s'.sectors (c.secno + k) = IdeState.chunk s.mem (BY2SECT * k)) ∧
    ∀ x, ¬ (c.secno ≤ x ∧ x < c.secno + c.nsecs) → s'.sectors x = s.sectors x
  read : c.isWrite = false → (∀ k < c.nsecs, IdeState.chunk s'.mem (BY2SECT * k) = s.sectors (c.secno + k)) ∧
    s'.sectors = s.sectors
  noFailure : AllServed ops

/-- A call begins: nothing is left to do for the device but to return heads. -/
structure IdeStart (s : IdeState) : Prop where
  ring : ∃ ret, RingInv s.ring [] ret
  unserved : s.unserved = []
  pc : s.pc = .fill 0

variable {c : IdeCall} {s₀ s s' : IdeState} {st st' : RingState} {pend ret : List Nat} {k : Nat}

-- ---------------------------------------------------------------------------
-- The ring, seen from one request
-- ---------------------------------------------------------------------------

/-- What a request says is the same for the device and for the process. -/
structure SameReqs (d d' : Vring) : Prop where
  desc : d'.desc = d.desc
  outhdr : d'.outhdr = d.outhdr
  outhdrPa : d'.outhdrPa = d.outhdrPa
  reqAt : d'.reqAt = d.reqAt

theorem SameReqs.refl (d : Vring) : SameReqs d d := ⟨rfl, rfl, rfl, rfl⟩

theorem SameReqs.trans {d d' d'' : Vring} (h : SameReqs d d') (h' : SameReqs d' d'') : SameReqs d d'' :=
  ⟨h'.desc.trans h.desc, h'.outhdr.trans h.outhdr, h'.outhdrPa.trans h.outhdrPa, h'.reqAt.trans h.reqAt⟩

/-- Chains are freed in the bitmap. -/
theorem freeChainLoop_bits (n : Nat) (d : Vring) (idx : Nat) {d' : Vring} (h : freeChainLoop n d idx = .ok d') :
    ∃ b, d' = d.withBits b := by
  induction n generalizing d idx with
  | zero => cases h
  | succ n ih =>
    unfold freeChainLoop at h
    obtain ⟨d₁, hfree, h⟩ := Lib.bind_eq_ok.mp h
    have hd₁ : ∃ b, d₁ = d.withBits b := by
      unfold freeDesc at hfree
      split_ifs at hfree
      exact ⟨_, (Except.ok.inj hfree).symm⟩
    obtain ⟨b, rfl⟩ := hd₁
    split_ifs at h
    · obtain ⟨b', rfl⟩ := ih _ _ h
      exact ⟨b', rfl⟩
    · exact ⟨b, (Except.ok.inj h).symm⟩

theorem round_same (h : st.round = .ok st') : SameReqs st.disk st'.disk := by
  unfold RingState.round at h
  obtain ⟨d, hround, h⟩ := Lib.bind_eq_ok.mp h
  cases h
  unfold intrRound at hround
  obtain ⟨d₁, hfree, hround⟩ := Lib.bind_eq_ok.mp hround
  cases hround
  obtain ⟨b, rfl⟩ := freeChainLoop_bits _ _ _ hfree
  exact ⟨rfl, rfl, rfl, rfl⟩

theorem rounds_same (n : Nat) (st : RingState) (h : st.rounds n = .ok st') : SameReqs st.disk st'.disk := by
  induction n generalizing st with
  | zero =>
    cases h
    exact SameReqs.refl _
  | succ n ih =>
    unfold RingState.rounds at h
    obtain ⟨st₁, hround, h⟩ := Lib.bind_eq_ok.mp h
    exact (round_same hround).trans (ih st₁ h)

/-- A step of the device, apart from taking heads and working on them, or an interrupt. -/
def Passive : RingOp → Prop
  | .req _ | .clients _ | .consume => False
  | _ => True

/-- Such a step keeps what is waiting, and what the requests say. -/
theorem ringInv_passive (h : RingInv st pend ret) {op : RingOp} (hop : Passive op) (hrun : op.run st = .ok st') :
    (∃ ret', RingInv st' pend ret') ∧ SameReqs st.disk st'.disk := by
  cases op with
  | req _ => exact hop.elim
  | clients _ => exact hop.elim
  | consume => exact hop.elim
  | complete head len =>
    obtain ⟨st'', ret', hrun', hinv, -⟩ := h.step_complete head len
    rw [hrun] at hrun'
    cases hrun'
    refine ⟨⟨ret', hinv⟩, ?_⟩
    by_cases hm : head ∈ st.inflight
    · have heq : (RingOp.complete head len).run st = .ok _ := if_pos hm
      rw [hrun] at heq
      cases heq
      exact ⟨rfl, rfl, rfl, rfl⟩
    · have heq : (RingOp.complete head len).run st = .ok st := if_neg hm
      rw [hrun] at heq
      cases heq
      exact SameReqs.refl _
  | notify on =>
    cases hrun
    refine ⟨⟨ret, h.of_disk _ rfl rfl rfl rfl rfl rfl rfl ?_⟩, ⟨rfl, rfl, rfl, rfl⟩⟩
    cases on with
    | true => exact Or.inl rfl
    | false => exact Or.inr rfl
  | interrupt status =>
    cases hrun
    exact ⟨⟨ret, h.of_disk _ rfl rfl rfl rfl rfl rfl rfl h.flags⟩, ⟨rfl, rfl, rfl, rfl⟩⟩
  | round =>
    by_cases he : st.disk.usedIdx = st.disk.used.idx
    · have heq : RingOp.round.run st = .ok st := if_pos he
      rw [hrun] at heq
      cases heq
      exact ⟨⟨ret, h⟩, SameReqs.refl _⟩
    · have heq : RingOp.round.run st = st.round := if_neg he
      rw [hrun] at heq
      refine ⟨?_, round_same heq.symm⟩
      cases ret with
      | nil => exact absurd ((h.usedWin.lo_eq_hi_iff (by decide)).mpr rfl) he
      | cons x ret =>
        obtain ⟨st'', hrun', hinv, -⟩ := h.step_round
        rw [← heq] at hrun'
        cases hrun'
        exact ⟨ret, hinv⟩
  | intr =>
    obtain ⟨st'', hrun', hinv, -⟩ := h.step_intr
    rw [hrun] at hrun'
    cases hrun'
    refine ⟨⟨[], hinv⟩, SameReqs.trans ?_ (rounds_same _ _ hrun)⟩
    unfold intrAck
    split_ifs
    · exact ⟨rfl, rfl, rfl, rfl⟩
    · exact SameReqs.refl _

/-- Nothing waits exactly if the device stands at the end of the available ring. -/
theorem ringInv_drained (h : RingInv st pend ret) : st.devIdx = st.disk.avail.idx ↔ pend = [] :=
  h.availWin.lo_eq_hi_iff (by have := h.pend_lt; omega)

/-- What the device finds at `head`: a request of the page at `pa`. -/
structure Posted (pa write sector : Nat) (d : Vring) (head : Nat) : Prop where
  hdr : d.outhdr (((d.desc (chainAt d head).head).addr - d.outhdrPa) / 16) =
    ⟨if write ≠ 0 then VIRTIO_BLK_T_OUT else VIRTIO_BLK_T_IN, 0, sector⟩
  data : (d.desc (chainAt d head).mid).addr = IdeState.bufPa pa
  status : (d.desc (chainAt d head).tail).addr - 5 = pa

theorem Posted.congr {pa write sector head : Nat} {d d' : Vring} (h : Posted pa write sector d head)
    (hdesc : d'.desc = d.desc) (hout : d'.outhdr = d.outhdr) (hpa : d'.outhdrPa = d.outhdrPa) :
    Posted pa write sector d' head := by
  have hch : chainAt d' head = chainAt d head := by
    unfold chainAt
    rw [hdesc]
  refine ⟨?_, ?_, ?_⟩
  · rw [hch, hdesc, hout, hpa]
    exact h.hdr
  · rw [hch, hdesc]
    exact h.data
  · rw [hch, hdesc]
    exact h.status

/-- The three descriptors say what the request says. -/
theorem posted_postReq (d : Vring) (pa : Nat) {i₀ i₁ i₂ : Nat} (hn : [i₀, i₁, i₂].Nodup) :
    Posted pa (d.reqAt pa).write (d.reqAt pa).sector (postReq d pa i₀ i₁ i₂) i₀ := by
  have hch : chainAt (postReq d pa i₀ i₁ i₂) i₀ = ⟨i₀, i₁, i₂⟩ := (RingInv.postReq_linked d pa hn).chainAt_eq
  simp only [List.nodup_cons, List.mem_cons, List.not_mem_nil, or_false, not_or] at hn
  obtain ⟨⟨h01, h02⟩, h12, -⟩ := hn
  have hhead : ((postReq d pa i₀ i₁ i₂).desc i₀).addr = d.outhdrPa + 16 * i₀ := by
    simp [postReq, fillDesc, h01, h02]
  have hmid : ((postReq d pa i₀ i₁ i₂).desc i₁).addr = pa + 6 := by
    simp [postReq, fillDesc, h12]
  have htail : ((postReq d pa i₀ i₁ i₂).desc i₂).addr = pa + 5 := by
    simp [postReq, fillDesc]
  refine ⟨?_, ?_, ?_⟩
  · rw [hch, hhead]
    show (postReq d pa i₀ i₁ i₂).outhdr ((d.outhdrPa + 16 * i₀ - d.outhdrPa) / 16) = _
    rw [Nat.add_sub_cancel_left, Nat.mul_div_cancel_left _ (by decide)]
    exact Function.update_self ..
  · rw [hch]
    exact hmid
  · rw [hch, htail]
    exact Nat.add_sub_cancel ..

/-- `virtio_disk_req` refuses the request, or puts it at the end of the available ring. -/
theorem ringInv_req (h : RingInv st pend ret) (pa : Nat) :
    (∃ r < 0, virtioDiskReq st.disk pa = .ok (r, st.disk) ∧ (RingOp.req pa).run st = .ok st) ∨
    ∃ head d st', virtioDiskReq st.disk pa = .ok (0, d) ∧ (RingOp.req pa).run st = .ok st' ∧
      RingInv st' (pend ++ [head]) ret ∧
      Posted pa (st.disk.reqAt pa).write (st.disk.reqAt pa).sector st'.disk head ∧
      (st'.disk.reqAt pa).status = DISK_STATUS_NO_RESP := by
  rcases RingInv.virtioDiskReq_cases st.disk pa h.flags with
    ⟨r, hr, he⟩ | ⟨i₀, i₁, i₂, b, n, hlt, hn, hfree, hb, he⟩
  · left
    refine ⟨r, hr, he, ?_⟩
    simp only [RingOp.run, he, bind, Except.bind, pure, Except.pure, if_neg (Int.ne_of_lt hr)]
  · right
    obtain ⟨hinv, -⟩ := h.post pa hlt hn hfree hb
    have hinv' := hinv.of_disk { postReq (st.disk.withBits b) pa i₀ i₁ i₂ with queueNotify := n }
      rfl rfl rfl rfl rfl rfl rfl h.flags
    refine ⟨i₀, _, _, he, ?_, hinv', ?_, ?_⟩
    · have hhead : (postReq (st.disk.withBits b) pa i₀ i₁ i₂).avail.ring
          (st.disk.avail.idx % VIRTIO_QUEUE_NUM) = i₀ := Function.update_self ..
      have hchain := (RingInv.postReq_linked (st.disk.withBits b) pa hn).chainAt_eq
      simp only [RingOp.run, he, bind, Except.bind, pure, Except.pure, hhead, if_true]
      congr 3
    · exact (posted_postReq (st.disk.withBits b) pa hn).congr rfl rfl rfl
    · show (Function.update st.disk.reqAt pa _ pa).status = _
      rw [Function.update_self]

theorem ringInv_setReq (h : RingInv s.ring pend ret) (pa : Nat) (r : VirtioBlkReq) :
    RingInv (s.setReq pa r).ring pend ret :=
  h.of_disk _ rfl rfl rfl rfl rfl rfl rfl h.flags

theorem setReq_reqAt (s : IdeState) (pa : Nat) (r : VirtioBlkReq) :
    (s.setReq pa r).ring.disk.reqAt pa = r := Function.update_self ..

-- ---------------------------------------------------------------------------
-- Moving sectors
-- ---------------------------------------------------------------------------

theorem chunk_copySector (mem : Nat → BitVec 8) (off : Nat) (b : Sector) :
    IdeState.chunk (IdeState.copySector mem off b) off = b := by
  funext i
  unfold IdeState.chunk IdeState.copySector
  rw [dif_pos ⟨Nat.le_add_right _ _, by omega⟩]
  congr 1
  exact Fin.ext (Nat.add_sub_cancel_left ..)

/-- The sectors before are kept. -/
theorem chunk_copySector_of_lt (mem : Nat → BitVec 8) (b : Sector) {j k : Nat} (hj : j < k) :
    IdeState.chunk (IdeState.copySector mem (BY2SECT * k) b) (BY2SECT * j) = IdeState.chunk mem (BY2SECT * j) := by
  funext i
  have hi : i.val < BY2SECT := i.isLt
  have hle : BY2SECT * (j + 1) ≤ BY2SECT * k := Nat.mul_le_mul_left _ hj
  rw [Nat.mul_succ] at hle
  exact dif_neg (by omega)

/-- The first `k` sectors are moved, and nothing else is touched. -/
structure Moved (c : IdeCall) (s₀ : IdeState) (sectors : Nat → Sector) (mem : Nat → BitVec 8) (k : Nat) : Prop where
  written : c.isWrite = true → mem = s₀.mem ∧
    (∀ j < k, sectors (c.secno + j) = IdeState.chunk s₀.mem (BY2SECT * j)) ∧
    ∀ x, ¬ (c.secno ≤ x ∧ x < c.secno + k) → sectors x = s₀.sectors x
  read : c.isWrite = false → sectors = s₀.sectors ∧
    ∀ j < k, IdeState.chunk mem (BY2SECT * j) = s₀.sectors (c.secno + j)

variable {sectors : Nat → Sector} {mem : Nat → BitVec 8}

theorem Moved.zero (c : IdeCall) (s₀ : IdeState) : Moved c s₀ s₀.sectors s₀.mem 0 :=
  ⟨fun _ => ⟨rfl, fun _ hj => absurd hj (Nat.not_lt_zero _), fun _ _ => rfl⟩,
    fun _ => ⟨rfl, fun _ hj => absurd hj (Nat.not_lt_zero _)⟩⟩

/-- The device writes the next sector. -/
theorem Moved.write (h : Moved c s₀ sectors mem k) (hw : c.isWrite = true) :
    Moved c s₀ (Function.update sectors (c.secno + k) (IdeState.chunk s₀.mem (BY2SECT * k))) mem (k + 1) := by
  obtain ⟨hmem, hdone, hrest⟩ := h.written hw
  refine ⟨fun _ => ⟨hmem, ?_, ?_⟩, fun hr => absurd (hw.symm.trans hr) Bool.noConfusion⟩
  · intro j hj
    rcases Nat.lt_succ_iff_lt_or_eq.mp hj with hj | rfl
    · rw [Function.update_of_ne (by omega)]
      exact hdone j hj
    · exact Function.update_self ..
  · intro x hx
    rw [Function.update_of_ne (by omega)]
    exact hrest x (by omega)

/-- The call copies the next sector. -/
theorem Moved.copy (h : Moved c s₀ sectors mem k) (hr : c.isWrite = false) :
    Moved c s₀ sectors (IdeState.copySector mem (BY2SECT * k) (s₀.sectors (c.secno + k))) (k + 1) := by
  obtain ⟨hsec, hdone⟩ := h.read hr
  refine ⟨fun hw => absurd (hw.symm.trans hr) Bool.noConfusion, fun _ => ⟨hsec, ?_⟩⟩
  intro j hj
  rcases Nat.lt_succ_iff_lt_or_eq.mp hj with hj | rfl
  · rw [chunk_copySector_of_lt _ _ hj]
    exact hdone j hj
  · exact chunk_copySector ..

-- ---------------------------------------------------------------------------
-- The call, step by step
-- ---------------------------------------------------------------------------

/-- The device has nothing to do but to return heads. -/
def DeviceIdle (s : IdeState) : Prop := (∃ ret, RingInv s.ring [] ret) ∧ s.unserved = []

/-- The request at `head` is out: the device has taken it, or will take it next. -/
def ReqOut (s : IdeState) (head : Nat) : Prop :=
  (∃ ret, RingInv s.ring [head] ret) ∧ s.unserved = [] ∨ (∃ ret, RingInv s.ring [] ret) ∧ s.unserved = [head]

/-- What holds at each point of a call that no failure has met. -/
inductive IdeInv (c : IdeCall) (s₀ s : IdeState) : Prop where
  | fill (k : Nat) (hpc : s.pc = .fill (BY2SECT * k)) (hk : k ≤ c.nsecs) (hquiet : DeviceIdle s)
      (hmoved : Moved c s₀ s.sectors s.mem k)
  | post (k : Nat) (hpc : s.pc = .post (BY2SECT * k)) (hk : k < c.nsecs) (hquiet : DeviceIdle s)
      (hmoved : Moved c s₀ s.sectors s.mem k)
      (hsector : (s.ring.disk.reqAt c.pa).sector = c.secno + k)
      (hwrite : (s.ring.disk.reqAt c.pa).write = c.isWrite.toNat)
      (hbuf : c.isWrite = true → s.bufAt (IdeState.bufPa c.pa) = IdeState.chunk s₀.mem (BY2SECT * k))
  | waiting (k head : Nat) (hpc : s.pc = .poll (BY2SECT * k)) (hk : k < c.nsecs) (hout : ReqOut s head)
      (hmoved : Moved c s₀ s.sectors s.mem k)
      (hposted : Posted c.pa c.isWrite.toNat (c.secno + k) s.ring.disk head)
      (hstatus : (s.ring.disk.reqAt c.pa).status = DISK_STATUS_NO_RESP)
      (hbuf : c.isWrite = true → s.bufAt (IdeState.bufPa c.pa) = IdeState.chunk s₀.mem (BY2SECT * k))
  | served (k : Nat) (hpc : s.pc = .poll (BY2SECT * k)) (hk : k < c.nsecs) (hquiet : DeviceIdle s)
      (hstatus : (s.ring.disk.reqAt c.pa).status = 0)
      (hmoved : Moved c s₀ s.sectors (s.landed c (BY2SECT * k)) (k + 1))
  | returned (hpc : s.pc = .returned) (hquiet : DeviceIdle s) (hmoved : Moved c s₀ s.sectors s.mem c.nsecs)
  | panicked (hpc : s.pc = .panicked)

theorem IdeInv.ringInv (h : IdeInv c s₀ s) : s.pc = .panicked ∨ ∃ pend ret, RingInv s.ring pend ret := by
  cases h with
  | fill _ _ _ hquiet => exact Or.inr ⟨[], hquiet.1⟩
  | post _ _ _ hquiet => exact Or.inr ⟨[], hquiet.1⟩
  | waiting _ head _ _ hout =>
    rcases hout with ⟨hinv, -⟩ | ⟨hinv, -⟩
    · exact Or.inr ⟨[head], hinv⟩
    · exact Or.inr ⟨[], hinv⟩
  | served _ _ _ hquiet => exact Or.inr ⟨[], hquiet.1⟩
  | returned _ hquiet => exact Or.inr ⟨[], hquiet.1⟩
  | panicked hpc => exact Or.inl hpc

/-- The test of the loop, while the bytes stay on the disk. -/
theorem loop_test (hdisk : (c.secno + c.nsecs) * BY2SECT ≤ DISKMAX) (hk : k ≤ c.nsecs) :
    (c.secno * BY2SECT % 2 ^ 32 + BY2SECT * k) % 2 ^ 32 <
      (c.secno * BY2SECT % 2 ^ 32 + c.nsecs * BY2SECT) % 2 ^ 32 ↔ k < c.nsecs := by
  have hmax : DISKMAX = 2 ^ 30 := rfl
  rw [Nat.add_mul, hmax] at hdisk
  have hle : BY2SECT * k ≤ c.nsecs * BY2SECT := by
    rw [Nat.mul_comm]
    exact Nat.mul_le_mul_right _ hk
  rw [Nat.mod_eq_of_lt (show c.secno * BY2SECT < 2 ^ 32 by omega), Nat.mod_eq_of_lt (by omega),
    Nat.mod_eq_of_lt (by omega), Nat.add_lt_add_iff_left, Nat.mul_comm]
  exact Nat.mul_lt_mul_right (by decide)

/-- The head of the loop: the next request is written, or the call is over. -/
theorem ideInv_fill (hdisk : (c.secno + c.nsecs) * BY2SECT ≤ DISKMAX) (hk : k ≤ c.nsecs)
    (hquiet : DeviceIdle s) (hmoved : Moved c s₀ s.sectors s.mem k) :
    IdeInv c s₀ (s.fill c (BY2SECT * k)) := by
  unfold IdeState.fill
  by_cases hlt : k < c.nsecs
  · rw [if_pos ((loop_test hdisk hk).mpr hlt)]
    obtain ⟨⟨ret, hinv⟩, hun⟩ := hquiet
    have hmax : DISKMAX = 2 ^ 21 * BY2SECT := rfl
    have hsec : (c.secno + BY2SECT * k / BY2SECT) % 2 ^ 32 = c.secno + k := by
      rw [hmax] at hdisk
      have := Nat.le_of_mul_le_mul_right hdisk (by decide)
      rw [Nat.mul_div_cancel_left _ (by decide), Nat.mod_eq_of_lt (by omega)]
    refine .post k rfl hlt ⟨⟨ret, ringInv_setReq hinv ..⟩, hun⟩ hmoved ?_ ?_ ?_
    · show ((s.setReq c.pa _).ring.disk.reqAt c.pa).sector = _
      rw [setReq_reqAt]
      exact hsec
    · show ((s.setReq c.pa _).ring.disk.reqAt c.pa).write = _
      rw [setReq_reqAt]
    · intro hw
      show (if c.isWrite then _ else _ : Nat → Sector) _ = _
      rw [if_pos hw, Function.update_self]
      show IdeState.chunk s.mem _ = _
      rw [(hmoved.written hw).1]
  · rw [if_neg fun h => hlt ((loop_test hdisk hk).mp h)]
    obtain rfl : k = c.nsecs := by omega
    exact .returned rfl hquiet hmoved

/-- The system call hands the request over, or leaves everything as it was. -/
theorem ideInv_post (hk : k < c.nsecs) (hpc : s.pc = .post (BY2SECT * k)) (hquiet : DeviceIdle s)
    (hmoved : Moved c s₀ s.sectors s.mem k)
    (hsector : (s.ring.disk.reqAt c.pa).sector = c.secno + k)
    (hwrite : (s.ring.disk.reqAt c.pa).write = c.isWrite.toNat)
    (hbuf : c.isWrite = true → s.bufAt (IdeState.bufPa c.pa) = IdeState.chunk s₀.mem (BY2SECT * k))
    (hrun : s.post c (BY2SECT * k) = some s') : IdeInv c s₀ s' := by
  unfold IdeState.post at hrun
  obtain ⟨⟨ret, hinv⟩, hun⟩ := hquiet
  rcases ringInv_req hinv c.pa with ⟨r, hr, hreq, hring⟩ | ⟨head, d, st, hreq, hring, hinv', hposted, hstatus⟩
  · rw [hreq, hring] at hrun
    simp only [if_pos hr] at hrun
    split_ifs at hrun
    · cases hrun
      exact .post k hpc hk ⟨⟨ret, hinv⟩, hun⟩ hmoved hsector hwrite hbuf
    · cases hrun
      exact .panicked rfl
  · rw [hreq, hring] at hrun
    simp only [if_neg (show ¬ (0 : Int) = -E_NO_RING_DESC by decide), if_neg (lt_irrefl (0 : Int))] at hrun
    cases hrun
    rw [hsector, hwrite] at hposted
    exact .waiting k head rfl hk (.inl ⟨⟨ret, hinv'⟩, hun⟩) hmoved hposted hstatus hbuf

/-- The call goes on. -/
theorem ideInv_proc (hdisk : (c.secno + c.nsecs) * BY2SECT ≤ DISKMAX) (h : IdeInv c s₀ s)
    (hrun : s.proc c = some s') : IdeInv c s₀ s' := by
  have h' := h
  unfold IdeState.proc at hrun
  cases h with
  | fill k hpc hk hquiet hmoved =>
    rw [hpc] at hrun
    cases hrun
    exact ideInv_fill hdisk hk hquiet hmoved
  | post k hpc hk hquiet hmoved hsector hwrite hbuf =>
    rw [hpc] at hrun
    exact ideInv_post hk hpc hquiet hmoved hsector hwrite hbuf hrun
  | waiting k head hpc hk hout hmoved hposted hstatus hbuf =>
    rw [hpc] at hrun
    obtain rfl : s.poll c (BY2SECT * k) = s' := Option.some.inj hrun
    rw [IdeState.poll, if_pos hstatus]
    exact h'
  | served k hpc hk hquiet hstatus hmoved =>
    rw [hpc] at hrun
    obtain rfl : s.poll c (BY2SECT * k) = s' := Option.some.inj hrun
    rw [IdeState.poll, if_neg (by rw [hstatus]; decide)]
    have hmax : DISKMAX = 2 ^ 21 * BY2SECT := rfl
    have hoff : (BY2SECT * k + BY2SECT) % 2 ^ 32 = BY2SECT * (k + 1) := by
      rw [hmax] at hdisk
      have hle := Nat.le_of_mul_le_mul_right hdisk (by decide)
      show (512 * k + 512) % 2 ^ 32 = 512 * (k + 1)
      omega
    exact .fill (k + 1) (congrArg IdePc.fill hoff) hk hquiet hmoved
  | returned hpc hquiet hmoved =>
    rw [hpc] at hrun
    cases hrun
    exact h'
  | panicked hpc =>
    rw [hpc] at hrun
    cases hrun
    exact h'

/-- A change of the ring that keeps what is waiting and what the requests say. -/
theorem ideInv_ring (h : IdeInv c s₀ s) {ring : RingState} (hsame : SameReqs s.ring.disk ring.disk)
    (hring : ∀ pend ret, RingInv s.ring pend ret → ∃ ret', RingInv ring pend ret') :
    IdeInv c s₀ { s with ring } := by
  have hq : DeviceIdle s → DeviceIdle { s with ring } := fun ⟨⟨ret, hinv⟩, hun⟩ => ⟨hring [] ret hinv, hun⟩
  have hreq : ring.disk.reqAt = s.ring.disk.reqAt := hsame.reqAt
  cases h with
  | fill k hpc hk hquiet hmoved => exact .fill k hpc hk (hq hquiet) hmoved
  | post k hpc hk hquiet hmoved hsector hwrite hbuf =>
    refine .post k hpc hk (hq hquiet) hmoved ?_ ?_ hbuf
    · show (ring.disk.reqAt c.pa).sector = _
      rw [hreq]
      exact hsector
    · show (ring.disk.reqAt c.pa).write = _
      rw [hreq]
      exact hwrite
  | waiting k head hpc hk hout hmoved hposted hstatus hbuf =>
    refine .waiting k head hpc hk ?_ hmoved (hposted.congr hsame.desc hsame.outhdr hsame.outhdrPa) ?_ hbuf
    · rcases hout with ⟨⟨ret, hinv⟩, hun⟩ | ⟨⟨ret, hinv⟩, hun⟩
      · exact .inl ⟨hring _ ret hinv, hun⟩
      · exact .inr ⟨hring _ ret hinv, hun⟩
    · show (ring.disk.reqAt c.pa).status = _
      rw [hreq]
      exact hstatus
  | served k hpc hk hquiet hstatus hmoved =>
    refine .served k hpc hk (hq hquiet) ?_ hmoved
    show (ring.disk.reqAt c.pa).status = _
    rw [hreq]
    exact hstatus
  | returned hpc hquiet hmoved => exact .returned hpc (hq hquiet) hmoved
  | panicked hpc => exact .panicked hpc

theorem run_consume (hrun : s.run c .consume = some s') :
    s.ring.devIdx ≠ s.ring.disk.avail.idx ∧ ∃ ring, RingOp.consume.run s.ring = .ok ring ∧
      s' = { s with
        ring
        unserved := s.ring.disk.avail.ring (s.ring.devIdx % VIRTIO_QUEUE_NUM) :: s.unserved } := by
  simp only [IdeState.run] at hrun
  split_ifs at hrun with he
  cases hr : RingOp.consume.run s.ring with
  | error e =>
    rw [hr] at hrun
    cases hrun
  | ok ring =>
    rw [hr] at hrun
    exact ⟨he, ring, rfl, (Option.some.inj hrun).symm⟩

theorem run_serve {head status : Nat} {lost : Sector} (hrun : s.run c (.serve head status lost) = some s') :
    head ∈ s.unserved ∧ s' = s.serve head status lost := by
  simp only [IdeState.run] at hrun
  split_ifs at hrun with hmem
  exact ⟨hmem, (Option.some.inj hrun).symm⟩

/-- The device takes the head that is out. -/
theorem ideInv_consume (h : IdeInv c s₀ s) (hrun : s.run c .consume = some s') : IdeInv c s₀ s' := by
  obtain ⟨he, ring, hr, rfl⟩ := run_consume hrun
  have hno : ¬ DeviceIdle s := fun ⟨⟨ret, hinv⟩, _⟩ => he ((ringInv_drained hinv).mpr rfl)
  cases h with
  | fill k hpc hk hquiet hmoved => exact absurd hquiet hno
  | post k hpc hk hquiet hmoved hsector hwrite hbuf => exact absurd hquiet hno
  | waiting k head hpc hk hout hmoved hposted hstatus hbuf =>
    rcases hout with ⟨⟨ret, hinv⟩, hun⟩ | ⟨⟨ret, hinv⟩, -⟩
    · obtain ⟨-, hhead, ring', hr', hinv', hd⟩ := hinv.consume_head
      rw [hr] at hr'
      cases hr'
      refine .waiting k head hpc hk (.inr ⟨⟨ret, hinv'⟩, ?_⟩) hmoved ?_ ?_ hbuf
      · show _ :: s.unserved = _
        rw [hhead, hun]
      · exact hposted.congr (by rw [hd]) (by rw [hd]) (by rw [hd])
      · show (ring.disk.reqAt c.pa).status = _
        rw [hd]
        exact hstatus
    · exact absurd ((ringInv_drained hinv).mpr rfl) he
  | served k hpc hk hquiet hstatus hmoved => exact absurd hquiet hno
  | returned hpc hquiet hmoved => exact absurd hquiet hno
  | panicked hpc => exact .panicked hpc

/-- The device works on the request of the call, as it stands in the ring. -/
theorem serve_eq {head status write sector pa : Nat} {lost : Sector} (h : Posted pa write sector s.ring.disk head) :
    s.serve head status lost =
      let s' := { s.setReq pa { s.ring.disk.reqAt pa with status } with unserved := s.unserved.erase head }
      if write ≠ 0 then
        let data := if status = 0 then s.bufAt (IdeState.bufPa pa) else lost
        { s' with sectors := Function.update s.sectors sector data }
      else
        let data := if status = 0 then s.sectors sector else lost
        { s' with bufAt := Function.update s.bufAt (IdeState.bufPa pa) data } := by
  unfold IdeState.serve
  simp only [h.hdr, h.data, h.status]
  by_cases hw : write ≠ 0
  · rw [if_pos hw, if_pos hw, if_pos rfl]
    rfl
  · rw [if_neg hw, if_neg hw, if_neg (by decide)]
    rfl

theorem serve_pc (s : IdeState) (head status : Nat) (lost : Sector) : (s.serve head status lost).pc = s.pc := by
  unfold IdeState.serve
  dsimp only
  split
  · rfl
  · rfl

/-- The device completes the request with status 0: the sector is written, or is in the buffer. -/
theorem ideInv_serve (h : IdeInv c s₀ s) {head : Nat} {lost : Sector}
    (hrun : s.run c (.serve head 0 lost) = some s') : IdeInv c s₀ s' := by
  obtain ⟨hmem, rfl⟩ := run_serve hrun
  have hno : ¬ DeviceIdle s := by
    intro ⟨_, hun⟩
    rw [hun] at hmem
    cases hmem
  cases h with
  | fill k hpc hk hquiet hmoved => exact absurd hquiet hno
  | post k hpc hk hquiet hmoved hsector hwrite hbuf => exact absurd hquiet hno
  | waiting k x hpc hk hout hmoved hposted hstatus hbuf =>
    rcases hout with ⟨-, hun⟩ | ⟨⟨ret, hinv⟩, hun⟩
    · rw [hun] at hmem
      cases hmem
    rw [hun] at hmem
    obtain rfl := List.mem_singleton.mp hmem
    rw [serve_eq hposted, hun, List.erase_cons_head]
    have hinv' := ringInv_setReq hinv c.pa { s.ring.disk.reqAt c.pa with status := 0 }
    have hzero := congrArg VirtioBlkReq.status (setReq_reqAt s c.pa { s.ring.disk.reqAt c.pa with status := 0 })
    cases hw : c.isWrite with
    | true =>
      refine .served k hpc hk ⟨⟨ret, hinv'⟩, rfl⟩ hzero ?_
      show Moved c s₀ (Function.update s.sectors (c.secno + k) (s.bufAt (IdeState.bufPa c.pa)))
        (if c.isWrite then s.mem else _) (k + 1)
      rw [if_pos hw, hbuf hw]
      exact hmoved.write hw
    | false =>
      refine .served k hpc hk ⟨⟨ret, hinv'⟩, rfl⟩ hzero ?_
      show Moved c s₀ s.sectors (if c.isWrite then s.mem else IdeState.copySector s.mem (BY2SECT * k)
        (Function.update s.bufAt (IdeState.bufPa c.pa) (s.sectors (c.secno + k)) (IdeState.bufPa c.pa))) (k + 1)
      have hcopy := hmoved.copy hw
      rw [← (hmoved.read hw).1] at hcopy
      rwa [if_neg (by rw [hw]; decide), Function.update_self]
  | served k hpc hk hquiet hstatus hmoved => exact absurd hquiet hno
  | returned hpc hquiet hmoved => exact absurd hquiet hno
  | panicked hpc => exact .panicked ((serve_pc s head 0 lost).trans hpc)

/-- The rest of the device, and interrupts. -/
theorem ideInv_device (h : IdeInv c s₀ s) {op : RingOp} (hrun : s.run c (.device op) = some s') : IdeInv c s₀ s' := by
  obtain ⟨hop, ring, hring, rfl⟩ : Passive op ∧ ∃ ring, op.run s.ring = .ok ring ∧ s' = { s with ring } := by
    have hmap : ∀ {r : Result RingState}, r.toOption.map (fun ring => { s with ring }) = some s' →
        ∃ ring, r = .ok ring ∧ s' = { s with ring } := by
      intro r hr
      cases r with
      | error e => cases hr
      | ok ring => exact ⟨ring, rfl, (Option.some.inj hr).symm⟩
    cases op with
    | req pa => cases hrun
    | clients reqAt => cases hrun
    | consume => cases hrun
    | complete head len =>
      simp only [IdeState.run] at hrun
      split_ifs at hrun
      exact ⟨trivial, hmap hrun⟩
    | notify on => exact ⟨trivial, hmap hrun⟩
    | interrupt status => exact ⟨trivial, hmap hrun⟩
    | round => exact ⟨trivial, hmap hrun⟩
    | intr => exact ⟨trivial, hmap hrun⟩
  rcases h.ringInv with hpc | ⟨pend, ret, hinv⟩
  · exact .panicked hpc
  · exact ideInv_ring h (ringInv_passive hinv hop hring).2 fun _ _ hinv => (ringInv_passive hinv hop hring).1

/-- **Step.** -/
theorem IdeInv.step (hdisk : (c.secno + c.nsecs) * BY2SECT ≤ DISKMAX) (h : IdeInv c s₀ s) {op : IdeOp}
    (hserved : ∀ head status lost, op = .serve head status lost → status = 0) (hrun : s.run c op = some s') :
    IdeInv c s₀ s' := by
  cases op with
  | proc => exact ideInv_proc hdisk h hrun
  | consume => exact ideInv_consume h hrun
  | serve head status lost =>
    obtain rfl := hserved head status lost rfl
    exact ideInv_serve h hrun
  | device op => exact ideInv_device h hrun

/-- **Run.** -/
theorem IdeInv.runs (hdisk : (c.secno + c.nsecs) * BY2SECT ≤ DISKMAX) (h : IdeInv c s₀ s) {ops : List IdeOp}
    (hserved : AllServed ops) (hrun : s.runs c ops = some s') : IdeInv c s₀ s' := by
  induction ops generalizing s with
  | nil =>
    cases hrun
    exact h
  | cons op ops ih =>
    obtain ⟨s₁, hop, hrest⟩ := Option.bind_eq_some_iff.mp hrun
    refine ih (h.step hdisk (fun head status lost he => hserved head status lost ?_) hop)
      (fun head status lost hmem => hserved head status lost (List.mem_cons_of_mem _ hmem)) hrest
    rw [he]
    exact List.mem_cons_self

/-- A call that has returned has moved all sectors. -/
theorem IdeInv.moved (h : IdeInv c s₀ s) (hpc : s.pc = .returned) : Moved c s₀ s.sectors s.mem c.nsecs := by
  cases h with
  | fill k hpc' => exact absurd (hpc'.symm.trans hpc) IdePc.noConfusion
  | post k hpc' => exact absurd (hpc'.symm.trans hpc) IdePc.noConfusion
  | waiting k head hpc' => exact absurd (hpc'.symm.trans hpc) IdePc.noConfusion
  | served k hpc' => exact absurd (hpc'.symm.trans hpc) IdePc.noConfusion
  | returned _ _ hmoved => exact hmoved
  | panicked hpc' => exact absurd (hpc'.symm.trans hpc) IdePc.noConfusion

/-- **Reading and writing sectors.** A call that returns has done what it should exactly if the device
has completed all requests with status 0; the code does not look at the status. -/
theorem ideCall_right_iff (c : IdeCall) (s₀ s' : IdeState) (ops : List IdeOp)
    (hdisk : (c.secno + c.nsecs) * BY2SECT ≤ DISKMAX) (hstart : IdeStart s₀) (hrun : s₀.runs c ops = some s')
    (hpc : s'.pc = .returned) : IdeRight c s₀ ops s' ↔ AllServed ops := by
  refine ⟨fun h => h.noFailure, fun hserved => ?_⟩
  have hfirst : IdeInv c s₀ s₀ := .fill 0 hstart.pc (Nat.zero_le _) ⟨hstart.ring, hstart.unserved⟩ (.zero c s₀)
  have hmoved := (hfirst.runs hdisk hserved hrun).moved hpc
  exact ⟨fun hw => (hmoved.written hw).2, fun hr => ⟨(hmoved.read hr).2, (hmoved.read hr).1⟩, hserved⟩

/-- One sector of ones is to be written to a disk of zeros. -/
def oneSector : IdeCall := ⟨true, 0, 1, KSTACKTOP⟩

def beforeWrite : IdeState :=
  ⟨⟨virtioDiskInit KERNBASE fun _ => ⟨0, 0, 0⟩, 0, [], []⟩, fun _ _ => 0, fun _ _ => 0, [], fun _ => 1, .fill 0⟩

/-- The call with a device that completes its request with the status. -/
def writeWith (status : Nat) : List IdeOp := [.proc, .proc, .consume, .serve 0 status fun _ => 0, .proc, .proc]

theorem beforeWrite_start : IdeStart beforeWrite := by
  obtain ⟨pend, ret, hinv⟩ := (RingReach.init : RingReach KERNBASE (fun _ => ⟨0, 0, 0⟩) beforeWrite.ring).inv
  obtain rfl := (ringInv_drained hinv).mp rfl
  exact ⟨⟨ret, hinv⟩, rfl, rfl⟩

theorem writeWith_returns {status : Nat} (h : status = 0 ∨ status = 1) :
    ∃ s', beforeWrite.runs oneSector (writeWith status) = some s' ∧ s'.pc = .returned := by
  have hpc : (beforeWrite.runs oneSector (writeWith status)).map IdeState.pc = some .returned := by
    rcases h with rfl | rfl
    · decide +kernel
    · decide +kernel
  exact Option.map_eq_some_iff.mp hpc

/-- The device writes the sector. -/
theorem ideCall_right_one : ∃ s', beforeWrite.runs oneSector (writeWith 0) = some s' ∧
    (IdeRight oneSector beforeWrite (writeWith 0) s' ↔ AllServed (writeWith 0)) := by
  obtain ⟨s', hrun, hpc⟩ := writeWith_returns (Or.inl rfl)
  exact ⟨s', hrun, ideCall_right_iff oneSector beforeWrite s' (writeWith 0) (by decide) beforeWrite_start hrun hpc⟩

/-- The device fails, and the call returns. -/
theorem ideWrite_failed : ∃ s', beforeWrite.runs oneSector (writeWith 1) = some s' ∧ s'.pc = .returned ∧
    ¬ IdeRight oneSector beforeWrite (writeWith 1) s' := by
  obtain ⟨s', hrun, hpc⟩ := writeWith_returns (Or.inr rfl)
  refine ⟨s', hrun, hpc, fun h => ?_⟩
  exact absurd (h.noFailure 0 1 (fun _ => 0) (by simp [writeWith])) (by decide)

end Mos.Fs
