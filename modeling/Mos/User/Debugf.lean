import Mos.Base.StringOps
import Mos.Kern.Mmu

/-!
# MOS on RISC-V — the output buffer of debugf

`user/lib/debugf.c` collects what `vprintfmt` puts out in a buffer of `BUF_LEN` bytes and
passes it to `syscall_print_cons` when the buffer is full, and at the end. The buffer and
its level are memory of the caller's stack, at `ctx`; between two calls of `debug_output`
all other memory may change.

Main results:

* `debugOutput_buffered` — a call returns, and adds its bytes to what is printed or buffered;
* `vdebugf_prints` — what is printed in the end are the bytes of all calls, in order.
-/

namespace Mos.User

open Mos.Lib Mos.Kern Mos.Base

-- ---------------------------------------------------------------------------
-- The source
-- ---------------------------------------------------------------------------

def BUF_LEN : Nat := 1024

/-- `sizeof(struct debug_ctx)`: the buffer, and `pos` behind it. -/
def CTX_LEN : Nat := BUF_LEN + 4

structure Console where
  mem : ByteMem
  printed : List (List (BitVec 8))     -- what `sys_print_cons` printed, call by call
  copies : List (Nat × Nat)            -- where `debug_output` copied to, and how much

namespace Console

variable (st : Console) (ctx : Nat)

/-- `ctx->pos`. -/
def pos : Nat := loadWord st.mem (ctx + BUF_LEN)

/-- `ctx->pos = n`. -/
def setPos (n : Nat) : Console := { st with mem := storeWord st.mem (ctx + BUF_LEN) n }

end Console

/-- `sys_print_cons(s, num)`. -/
def sysPrintCons (st : Console) (s num : Nat) : Int × Console :=
  if UTOP < addr (s + num) ∨ UTOP ≤ s ∨ addr (s + num) < s then (-E_INVAL, st)
  else (0, { st with printed := st.printed ++ [loadBytes st.mem s num] })

/-- `debug_flush`. It does not return from `user_panic`. -/
def debugFlush (ctx : Nat) (st : Console) : Option Console :=
  if st.pos ctx = 0 then some st
  else
    let (r, st) := sysPrintCons st ctx (st.pos ctx)
    if r ≠ 0 then none else some (st.setPos ctx 0)

/-- `memcpy(ctx->buf + ctx->pos, s, n)`. -/
def bufCopy (ctx : Nat) (st : Console) (s n : Nat) : Option Console := do
  let mem ← memcpy (2 ^ 32) st.mem (addr (ctx + st.pos ctx)) s n
  return { st with mem := mem, copies := st.copies ++ [(addr (ctx + st.pos ctx), n)] }

/-- `BUF_LEN - ctx->pos`. -/
def Console.room (st : Console) (ctx : Nat) : Nat := addr (2 ^ 32 + BUF_LEN - st.pos ctx)

/-- The string that is left to put out. -/
structure Rest where
  st : Console
  s : Nat
  l : Nat

/-- A round of the loop: the buffer is filled up and flushed. -/
def fillAndFlush (ctx : Nat) (r : Rest) : Option Rest := do
  let st ← bufCopy ctx r.st r.s (r.st.room ctx)
  let st ← debugFlush ctx (st.setPos ctx BUF_LEN)
  return ⟨st, addr (r.s + r.st.room ctx), addr (2 ^ 32 + r.l - r.st.room ctx)⟩

/-- `debug_output(ctx, s, l)`. No loop makes more than `2 ^ 32` rounds. -/
def debugOutput (ctx : Nat) (st : Console) (s l : Nat) : Option Console := do
  let r ← loop (fun r => BUF_LEN < addr (r.st.pos ctx + r.l)) (fillAndFlush ctx) (2 ^ 32) ⟨st, s, l⟩
  let st ← bufCopy ctx r.st r.s r.l
  return st.setPos ctx (addr (st.pos ctx + r.l))

/-- A call of `debug_output`, and what the memory outside of `*ctx` holds at that time. -/
structure Call where
  mem : ByteMem
  s : Nat
  l : Nat

/-- `*ctx` is as it was, all else as at the call. -/
def Console.at (st : Console) (ctx : Nat) (c : Call) : Console :=
  { st with mem := fun x => if ctx ≤ x ∧ x < ctx + CTX_LEN then st.mem x else c.mem x }

def outputs (ctx : Nat) : Console → List Call → Option Console
  | st, [] => some st
  | st, c :: cs => do
    let st ← debugOutput ctx (st.at ctx c) c.s c.l
    outputs ctx st cs

/-- `ctx.pos = 0`, in a fresh `ctx`. -/
def Console.start (ctx : Nat) (m : ByteMem) : Console := ⟨storeWord m (ctx + BUF_LEN) 0, [], []⟩

/-- `vdebugf`, for the calls that `vprintfmt` makes. -/
def vdebugf (ctx : Nat) (m : ByteMem) (cs : List Call) : Option Console := do
  let st ← outputs ctx (.start ctx m) cs
  debugFlush ctx st

-- ---------------------------------------------------------------------------
-- What is printed and what is buffered
-- ---------------------------------------------------------------------------

/-- The bytes of a call. -/
def Call.bytes (c : Call) : List (BitVec 8) := loadBytes c.mem c.s c.l

/-- The string is an object of its own, in mapped memory. -/
structure Readable (ctx s l : Nat) : Prop where
  low : s + l ≤ 2 ^ 32 - 4
  apart : s + l ≤ ctx ∨ ctx + CTX_LEN ≤ s

/-- All that has been put out is `out`: a part is printed, the rest is in the buffer. -/
structure Buffered (ctx : Nat) (st : Console) (out : List (BitVec 8)) : Prop where
  pos_le : st.pos ctx ≤ BUF_LEN
  out_eq : st.printed.flatten ++ loadBytes st.mem ctx (st.pos ctx) = out
  copies : ∀ c ∈ st.copies, ctx ≤ c.1 ∧ c.1 + c.2 ≤ ctx + BUF_LEN

/-- The memory outside of `*ctx` is the same. -/
def Same (ctx : Nat) (m m' : ByteMem) : Prop := ∀ x, x < ctx ∨ ctx + CTX_LEN ≤ x → m' x = m x

variable {ctx s l n : Nat} {st st' : Console} {out : List (BitVec 8)}

theorem Readable.bytes (h : Readable ctx s l) {m m' : ByteMem} (hm : Same ctx m m') :
    loadBytes m' s l = loadBytes m s l := by
  have happart := h.apart
  exact loadBytes_congr fun x _ _ => hm x (by omega)

theorem pos_setPos (st : Console) (ctx : Nat) (hn : n < 2 ^ 32) : (st.setPos ctx n).pos ctx = n :=
  loadWord_storeWord _ _ hn

/-- `pos` lies behind the buffer. -/
theorem setPos_buf (st : Console) (ctx n : Nat) {k : Nat} (hk : k ≤ BUF_LEN) :
    loadBytes (st.setPos ctx n).mem ctx k = loadBytes st.mem ctx k :=
  loadBytes_congr fun _ _ _ => storeWord_of_notMem (by omega)

theorem setPos_same (st : Console) (ctx n : Nat) : Same ctx st.mem (st.setPos ctx n).mem := by
  intro x hx
  unfold CTX_LEN at hx
  exact storeWord_of_notMem (by omega)

/-- A flush prints the buffer. -/
theorem debugFlush_buffered (hctx : ctx + CTX_LEN ≤ UTOP) (h : Buffered ctx st out) :
    ∃ st', debugFlush ctx st = some st' ∧ Buffered ctx st' out ∧ st'.pos ctx = 0 ∧
      st'.printed.flatten = out ∧ Same ctx st.mem st'.mem := by
  have hbuf : BUF_LEN = 1024 := rfl
  have hlen : CTX_LEN = BUF_LEN + 4 := rfl
  have hutop : UTOP < 2 ^ 32 := by decide
  have hpos := h.pos_le
  unfold debugFlush
  by_cases h0 : st.pos ctx = 0
  · rw [if_pos h0]
    refine ⟨st, rfl, h, h0, ?_, fun _ _ => rfl⟩
    have hout := h.out_eq
    rwa [h0, show loadBytes st.mem ctx 0 = [] from rfl, List.append_nil] at hout
  · have hok : ¬ (UTOP < addr (ctx + st.pos ctx) ∨ UTOP ≤ ctx ∨ addr (ctx + st.pos ctx) < ctx) := by
      rw [addr_of_lt (by omega)]
      omega
    have hprinted : (st.printed ++ [loadBytes st.mem ctx (st.pos ctx)]).flatten = out := by
      rw [List.flatten_append, List.flatten_singleton]
      exact h.out_eq
    rw [if_neg h0]
    unfold sysPrintCons
    rw [if_neg hok]
    refine ⟨_, rfl, ⟨?_, ?_, h.copies⟩, pos_setPos _ ctx (by decide), hprinted, setPos_same _ ctx 0⟩
    · rw [pos_setPos _ ctx (by decide)]
      exact Nat.zero_le _
    · rw [pos_setPos _ ctx (by decide)]
      exact (List.append_nil _).trans hprinted

/-- `n` bytes go into the buffer, as long as there is room. -/
theorem bufCopy_buffered (hctx : ctx + CTX_LEN ≤ UTOP) (h : Buffered ctx st out) (hs : Readable ctx s n)
    (hroom : st.pos ctx + n ≤ BUF_LEN) :
    ∃ st', bufCopy ctx st s n = some st' ∧ st'.pos ctx = st.pos ctx ∧
      Buffered ctx (st'.setPos ctx (st.pos ctx + n)) (out ++ loadBytes st.mem s n) ∧
      Same ctx st.mem st'.mem := by
  have hbuf : BUF_LEN = 1024 := rfl
  have hlen : CTX_LEN = BUF_LEN + 4 := rfl
  have hutop : UTOP = 0x7f400000 := by decide
  have hlow := hs.low
  have hdst : addr (ctx + st.pos ctx) = ctx + st.pos ctx := addr_of_lt (by omega)
  have hapart : ctx + st.pos ctx + n ≤ s ∨ s + n ≤ ctx + st.pos ctx := by
    have := hs.apart
    omega
  have hcopy : memcpy (2 ^ 32) st.mem (ctx + st.pos ctx) s n = some (copy st.mem (ctx + st.pos ctx) s n) := by
    rw [memcpy_run st.mem (by omega) hlow (by omega) (by omega), byteCopy_eq_copy (by omega)]
  unfold bufCopy
  rw [hdst, hcopy]
  refine ⟨_, rfl, loadWord_copy (by omega), ⟨?_, ?_, ?_⟩, ?_⟩
  · rw [pos_setPos _ ctx (by omega)]
    exact hroom
  · rw [pos_setPos _ ctx (by omega), setPos_buf _ ctx _ hroom, loadBytes_add, loadBytes_copy,
      loadBytes_congr (m := st.mem) (fun x _ _ => copy_of_notMem (by omega)), ← h.out_eq]
    exact (List.append_assoc ..).symm
  · intro c hc
    rcases List.mem_append.mp hc with hc | hc
    · exact h.copies c hc
    · rw [List.mem_singleton.mp hc]
      exact ⟨Nat.le_add_right .., by show ctx + st.pos ctx + n ≤ _; omega⟩
  · intro x hx
    exact copy_of_notMem (by omega)

-- ---------------------------------------------------------------------------
-- One call
-- ---------------------------------------------------------------------------

/-- What the loop keeps, of a call with the bytes from `s` on: the bytes before `r.s` are put out. -/
structure Progress (ctx s l : Nat) (st : Console) (out : List (BitVec 8)) (r : Rest) : Prop where
  left : r.l ≤ l
  here : r.s + r.l = s + l
  same : Same ctx st.mem r.st.mem
  buffered : Buffered ctx r.st (out ++ loadBytes st.mem s (l - r.l))

theorem fillAndFlush_progress (hctx : ctx + CTX_LEN ≤ UTOP) (hs : Readable ctx s l) {r : Rest}
    (h : Progress ctx s l st out r) (hc : BUF_LEN < r.st.pos ctx + r.l) :
    ∃ r', fillAndFlush ctx r = some r' ∧ Progress ctx s l st out r' ∧
      r'.st.pos ctx + r'.l < r.st.pos ctx + r.l := by
  have hbuf : BUF_LEN = 1024 := rfl
  have hpos := h.buffered.pos_le
  have hleft := h.left
  have hhere := h.here
  have hlow := hs.low
  have hapart := hs.apart
  obtain ⟨n, hn⟩ : ∃ n, n = BUF_LEN - r.st.pos ctx := ⟨_, rfl⟩
  have hsize : r.st.room ctx = n := by
    unfold Console.room addr
    omega
  have hnext : addr (r.s + n) = r.s + n := addr_of_lt (by omega)
  have hless : addr (2 ^ 32 + r.l - n) = r.l - n := by
    unfold addr
    omega
  have hread : Readable ctx r.s n := ⟨by omega, by omega⟩
  obtain ⟨st₁, hcopy, -, hfull, hsame₁⟩ := bufCopy_buffered hctx h.buffered hread (by omega)
  rw [show r.st.pos ctx + n = BUF_LEN by omega] at hfull
  obtain ⟨st₂, hflush, hout, hpos₂, -, hsame₂⟩ := debugFlush_buffered hctx hfull
  refine ⟨⟨st₂, r.s + n, r.l - n⟩, ?_, ⟨?_, ?_, ?_, ?_⟩, ?_⟩
  · unfold fillAndFlush
    rw [hsize, hcopy]
    rw [Option.bind_eq_bind, Option.bind_some, hflush, Option.bind_some, hnext, hless]
    rfl
  · show r.l - n ≤ l
    omega
  · show r.s + n + (r.l - n) = s + l
    omega
  · intro x hx
    exact (hsame₂ x hx).trans ((setPos_same st₁ ctx BUF_LEN x hx).trans ((hsame₁ x hx).trans (h.same x hx)))
  · -- the bytes put out now are the next `n` of the call
    have hbytes : loadBytes r.st.mem r.s n = loadBytes st.mem (s + (l - r.l)) n := by
      rw [show s + (l - r.l) = r.s by omega]
      exact hread.bytes h.same
    have hsplit := loadBytes_add st.mem s (l - r.l) n
    rw [show l - r.l + n = l - (r.l - n) by omega] at hsplit
    rwa [hsplit, ← List.append_assoc, ← hbytes]
  · rw [hpos₂]
    show 0 + (r.l - n) < _
    omega

/-- **A call.** It returns, and its bytes are printed or in the buffer, behind those put out before. -/
theorem debugOutput_buffered (hctx : ctx + CTX_LEN ≤ UTOP) (hs : Readable ctx s l)
    (h : Buffered ctx st out) :
    ∃ st', debugOutput ctx st s l = some st' ∧ Buffered ctx st' (out ++ loadBytes st.mem s l) := by
  have hbuf : BUF_LEN = 1024 := rfl
  have hlen : CTX_LEN = BUF_LEN + 4 := rfl
  have hlow := hs.low
  have hapart := hs.apart
  have hutop : UTOP = 0x7f400000 := by decide
  have haddr : ∀ r, Progress ctx s l st out r → addr (r.st.pos ctx + r.l) = r.st.pos ctx + r.l := by
    intro r hr
    have := hr.left
    have := hr.buffered.pos_le
    exact addr_of_lt (by omega)
  have hstart : Progress ctx s l st out ⟨st, s, l⟩ := by
    refine ⟨Nat.le_refl l, rfl, fun _ _ => rfl, ?_⟩
    rw [show l - l = 0 from Nat.sub_self l]
    exact (List.append_nil out).symm ▸ h
  have hpos := h.pos_le
  have hround : ∀ r, Progress ctx s l st out r → BUF_LEN < addr (r.st.pos ctx + r.l) →
      ∃ r', fillAndFlush ctx r = some r' ∧ Progress ctx s l st out r' ∧
        r'.st.pos ctx + r'.l < r.st.pos ctx + r.l := by
    intro r hr hc
    rw [haddr r hr] at hc
    exact fillAndFlush_progress hctx hs hr hc
  have hfuel : st.pos ctx + l < 2 ^ 32 := by omega
  obtain ⟨r, hloop, hr, hstop⟩ := loop_measure (Progress ctx s l st out) _ hround hstart hfuel
  rw [haddr r hr] at hstop
  have hleft := hr.left
  have hhere := hr.here
  have hread : Readable ctx r.s r.l := ⟨by omega, by omega⟩
  obtain ⟨st₁, hcopy, hpos₁, hout, -⟩ := bufCopy_buffered hctx hr.buffered hread (by omega)
  refine ⟨st₁.setPos ctx (r.st.pos ctx + r.l), ?_, ?_⟩
  · unfold debugOutput
    rw [hloop]
    show (bufCopy ctx r.st r.s r.l).bind _ = _
    rw [hcopy]
    show some (st₁.setPos ctx (addr (st₁.pos ctx + r.l))) = _
    rw [hpos₁, haddr r hr]
  · have hbytes : loadBytes r.st.mem r.s r.l = loadBytes st.mem (s + (l - r.l)) r.l := by
      rw [show s + (l - r.l) = r.s by omega]
      exact hread.bytes hr.same
    have hsplit := loadBytes_add st.mem s (l - r.l) r.l
    rw [show l - r.l + r.l = l by omega] at hsplit
    rwa [hsplit, ← List.append_assoc, ← hbytes]

-- ---------------------------------------------------------------------------
-- All calls
-- ---------------------------------------------------------------------------

/-- Memory that is not the context can change between two calls. -/
theorem Buffered.at (h : Buffered ctx st out) (c : Call) : Buffered ctx (st.at ctx c) out := by
  have hlen : CTX_LEN = BUF_LEN + 4 := rfl
  have hmem : ∀ x, ctx ≤ x → x < ctx + CTX_LEN → (st.at ctx c).mem x = st.mem x :=
    fun x hlo hhi => if_pos ⟨hlo, hhi⟩
  have hpos : (st.at ctx c).pos ctx = st.pos ctx := loadWord_congr fun x _ _ => hmem x (by omega) (by omega)
  have hpos_le := h.pos_le
  refine ⟨hpos ▸ h.pos_le, ?_, h.copies⟩
  rw [hpos, loadBytes_congr fun x hlo _ => hmem x hlo (by omega)]
  exact h.out_eq

theorem call_bytes (hs : Readable ctx s l) (st : Console) (c : Call) (hc : c.s = s ∧ c.l = l) :
    loadBytes (st.at ctx c).mem s l = c.bytes := by
  have hapart := hs.apart
  obtain ⟨rfl, rfl⟩ := hc
  exact loadBytes_congr fun x _ _ => if_neg (by omega)

/-- **Run lemma.** -/
theorem outputs_buffered (hctx : ctx + CTX_LEN ≤ UTOP) {cs : List Call}
    (hcs : ∀ c ∈ cs, Readable ctx c.s c.l) (h : Buffered ctx st out) :
    ∃ st', outputs ctx st cs = some st' ∧ Buffered ctx st' (out ++ cs.flatMap Call.bytes) := by
  induction cs generalizing st out with
  | nil => exact ⟨st, rfl, (List.append_nil out).symm ▸ h⟩
  | cons c cs ih =>
    have hc := hcs c List.mem_cons_self
    obtain ⟨st₁, hcall, h₁⟩ := debugOutput_buffered hctx hc (h.at c)
    rw [call_bytes hc st c ⟨rfl, rfl⟩] at h₁
    obtain ⟨st', hrun, h'⟩ := ih (fun c hc => hcs c (List.mem_cons_of_mem _ hc)) h₁
    rw [List.append_assoc, ← List.flatMap_cons] at h'
    refine ⟨st', ?_, h'⟩
    show (debugOutput ctx (st.at ctx c) c.s c.l).bind _ = _
    rw [hcall]
    exact hrun

theorem start_buffered (ctx : Nat) (m : ByteMem) : Buffered ctx (.start ctx m) [] := by
  have hpos : (Console.start ctx m).pos ctx = 0 := loadWord_storeWord _ _ (by decide)
  refine ⟨?_, ?_, fun c hc => absurd hc List.not_mem_nil⟩
  · rw [hpos]
    exact Nat.zero_le _
  · rw [hpos]
    rfl

/-- **debugf prints everything.** After any calls of `debug_output`, of any lengths, all copies
were inside the buffer and its level is at most `BUF_LEN`; what is printed after the flush at
the end are the bytes of the calls, in order. -/
theorem vdebugf_prints (hctx : ctx + CTX_LEN ≤ UTOP) (m : ByteMem) (cs : List Call)
    (hcs : ∀ c ∈ cs, Readable ctx c.s c.l) :
    ∃ st st', outputs ctx (.start ctx m) cs = some st ∧ st.pos ctx ≤ BUF_LEN ∧
      (∀ c ∈ st.copies, ctx ≤ c.1 ∧ c.1 + c.2 ≤ ctx + BUF_LEN) ∧
      vdebugf ctx m cs = some st' ∧ st'.printed.flatten = cs.flatMap Call.bytes := by
  obtain ⟨st, hrun, h⟩ := outputs_buffered hctx hcs (start_buffered ctx m)
  obtain ⟨st', hflush, -, -, hprinted, -⟩ := debugFlush_buffered hctx h
  refine ⟨st, st', hrun, h.pos_le, h.copies, ?_, hprinted⟩
  show (outputs ctx (.start ctx m) cs).bind (debugFlush ctx) = _
  rw [hrun]
  exact hflush

/-- Two strings, one of them longer than the buffer. -/
theorem vdebugf_prints_two :
    ∃ st', vdebugf 0x7f3fd000 (fun _ => 0) [⟨BitVec.ofNat 8, 0x400000, 3⟩, ⟨BitVec.ofNat 8, 0x400100, 2500⟩] =
        some st' ∧
      st'.printed.flatten = loadBytes (BitVec.ofNat 8) 0x400000 3 ++ loadBytes (BitVec.ofNat 8) 0x400100 2500 := by
  have hcs : ∀ c ∈ [Call.mk (BitVec.ofNat 8) 0x400000 3, ⟨BitVec.ofNat 8, 0x400100, 2500⟩],
      Readable 0x7f3fd000 c.s c.l := by
    intro c hc
    rcases List.mem_cons.mp hc with rfl | hc
    · exact ⟨by decide, .inl (by decide)⟩
    · rw [List.mem_singleton.mp hc]
      exact ⟨by decide, .inl (by decide)⟩
  obtain ⟨-, st', -, -, -, hrun, hprinted⟩ := vdebugf_prints (by decide) (fun _ => 0) _ hcs
  refine ⟨st', hrun, hprinted.trans ?_⟩
  rw [List.flatMap_cons, List.flatMap_singleton]
  rfl

end Mos.User
