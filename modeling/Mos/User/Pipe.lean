import Mathlib.Algebra.Group.Nat.Defs
import Mathlib.Data.List.Basic
import Mathlib.Logic.Function.Basic

/-!
# MOS on RISC-V — reading a pipe to its end

`pipe_read` and `pipe_write` of `user/lib/pipe.c`, step by step, for a process
that holds the read end of a pipe and one that holds the write end, together
with the `close` of the write end. A step is a test of the positions, a call of
`_pipe_is_closed`, the transfer of a byte, or a system call. The lists `written`
and `returned` are history: the bytes put into the pipe, and those that calls
of `pipe_read` have returned.

`pipe_read` finds the pipe empty in one step and asks whether it is closed in a
later one. `pipeRead_eof` shows that a return of 0 means the end of the stream
as long as the writer does not close in between with bytes in the buffer, and
`pipeRead_loses_tail` that bytes are lost when it does.
-/

namespace Mos.User

def BY2PIPE : Nat := 32

/-- `struct Pipe`. -/
structure Pipe where
  rpos : Nat
  wpos : Nat
  buf : Nat → Nat

/-- Where the reader is; `got` are the bytes of this call, `i` of them. -/
inductive ReadPc where
  | idle
  | loop (n : Nat) (got : List Nat)     -- the tests of the loops
  | empty (n : Nat) (got : List Nat)    -- the pipe was found empty
  | copy (n : Nat) (got : List Nat)     -- a byte is there
  deriving DecidableEq, Repr

/-- Where the writer is; `todo` are the bytes it still has to write. -/
inductive WritePc where
  | idle
  | loop (todo : List Nat)
  | full (todo : List Nat)
  | copy (b : Nat) (todo : List Nat)
  | unmapFd                             -- `pipe_close`: unmap `fd`,
  | unmapData                           -- then the page of the pipe
  | fdClose                             -- `fd_close`: unmap `fd` again
  | closed
  deriving DecidableEq, Repr

structure PipeSys where
  pipe : Pipe
  reader : ReadPc
  writer : WritePc
  wfd : Bool                            -- the writer has its `Fd` page mapped
  wdata : Bool                          -- and the page of the pipe
  written : List Nat
  returned : List Nat

namespace PipeSys

/-- `pageref` of the reader's `Fd` page, of the writer's, and of the pipe. -/
def rfdRef (_ : PipeSys) : Nat := 1
def wfdRef (s : PipeSys) : Nat := s.wfd.toNat
def pipeRef (s : PipeSys) : Nat := 1 + s.wdata.toNat

/-- `_pipe_is_closed`, on the counts it reads; the loop around the two reads
starts again when the process was switched out in between. -/
def pipeIsClosed (fdRef pipeRef : Nat) : Bool := fdRef == pipeRef

/-- One step of `pipe_read`; a return gives `n` and the result. -/
def pipeRead (s : PipeSys) : PipeSys × Option (Nat × Nat) :=
  match s.reader with
  | .idle => (s, none)
  | .loop n got =>
    if got.length < n then
      if s.pipe.wpos ≤ s.pipe.rpos then ({ s with reader := .empty n got }, none)
      else ({ s with reader := .copy n got }, none)
    else ({ s with reader := .idle, returned := s.returned ++ got }, some (n, n))
  | .empty n got =>
    if got.length ≠ 0 ∨ pipeIsClosed s.rfdRef s.pipeRef then
      ({ s with reader := .idle, returned := s.returned ++ got }, some (n, got.length))
    else ({ s with reader := .loop n got }, none)
  | .copy n got =>
    ({ s with
      pipe := { s.pipe with rpos := (s.pipe.rpos + 1) % 2 ^ 32 }
      reader := .loop n (got ++ [s.pipe.buf (s.pipe.rpos % BY2PIPE)]) }, none)

/-- One step of `pipe_write` or of `close`. -/
def pipeWrite (s : PipeSys) : PipeSys :=
  match s.writer with
  | .idle => s
  | .loop [] => { s with writer := .idle }
  | .loop (b :: todo) =>
    if (s.pipe.rpos + BY2PIPE) % 2 ^ 32 ≤ s.pipe.wpos then { s with writer := .full (b :: todo) }
    else { s with writer := .copy b todo }
  | .full todo =>
    if pipeIsClosed s.wfdRef s.pipeRef then { s with writer := .idle }
    else { s with writer := .loop todo }
  | .copy b todo =>
    { s with
      pipe := { s.pipe with
        buf := Function.update s.pipe.buf (s.pipe.wpos % BY2PIPE) b
        wpos := (s.pipe.wpos + 1) % 2 ^ 32 }
      writer := .loop todo
      written := s.written ++ [b] }
  | .unmapFd => { s with wfd := false, writer := .unmapData }
  | .unmapData => { s with wdata := false, writer := .fdClose }
  | .fdClose => { s with wfd := false, writer := .closed }
  | .closed => s

/-- The pipe right after its creation. -/
def init : PipeSys := ⟨⟨0, 0, fun _ => 0⟩, .idle, .idle, true, true, [], []⟩

end PipeSys

inductive PipeAct where
  | read (n : Nat)              -- the reader calls `pipe_read`
  | reader                      -- and takes a step
  | write (bytes : List Nat)    -- the writer calls `pipe_write`
  | close                       -- or `close`
  | writer                      -- and takes a step
  deriving DecidableEq, Repr

/-- A call is made only between calls. -/
def PipeSys.step (s : PipeSys) : PipeAct → PipeSys
  | .read n => if s.reader = .idle then { s with reader := .loop n [] } else s
  | .reader => s.pipeRead.1
  | .write bytes => if s.writer = .idle then { s with writer := .loop bytes } else s
  | .close => if s.writer = .idle then { s with writer := .unmapFd } else s
  | .writer => s.pipeWrite

def PipeSys.run (s : PipeSys) (acts : List PipeAct) : PipeSys := acts.foldl PipeSys.step s

/-- What a return of 0 must mean: the write end is closed, and every byte written
was returned by an earlier call. -/
def PipeSys.AtEnd (s : PipeSys) : Prop :=
  s.wfd = false ∧ s.wdata = false ∧ s.returned = s.written

/-- The pipe was found empty before a byte of this call was read. -/
def ReadPc.foundEmpty : ReadPc → Bool
  | .empty _ [] => true
  | _ => false

/-- The writer does not give up the page of the pipe while the reader, having
found the pipe empty, is about to ask whether it is closed, and there are bytes
in the buffer by now. -/
def TailSafe (s : PipeSys) (a : PipeAct) : Prop :=
  a = .writer → s.writer = .unmapData → s.reader.foundEmpty = true → s.pipe.wpos ≤ s.pipe.rpos

/-- The states of the runs whose steps all meet `P`. -/
inductive PipeReach (P : PipeSys → PipeAct → Prop) : PipeSys → Prop where
  | init : PipeReach P PipeSys.init
  | step {s : PipeSys} (a : PipeAct) : PipeReach P s → P s a → PipeReach P (s.step a)

-- ---------------------------------------------------------------------------
-- The invariant
-- ---------------------------------------------------------------------------

/-- The bytes of the current call. -/
def ReadPc.got : ReadPc → List Nat
  | .idle => []
  | .loop _ got => got
  | .empty _ got => got
  | .copy _ got => got

/-- The system calls of `close` that are done. -/
def WritePc.fdGone : WritePc → Bool
  | .unmapData | .fdClose | .closed => true
  | _ => false

def WritePc.dataGone : WritePc → Bool
  | .fdClose | .closed => true
  | _ => false

/-- The positions do not pass each other or wrap, the buffer holds the bytes in
between, and what was read is a beginning of what was written. -/
structure PipeInv (s : PipeSys) : Prop where
  le : s.pipe.rpos ≤ s.pipe.wpos
  room : s.pipe.wpos ≤ s.pipe.rpos + BY2PIPE
  lt : s.pipe.wpos < 2 ^ 32
  len : s.written.length = s.pipe.wpos
  data : ∀ i, s.pipe.rpos ≤ i → i < s.pipe.wpos → s.written[i]? = some (s.pipe.buf (i % BY2PIPE))
  read : s.returned ++ s.reader.got = s.written.take s.pipe.rpos
  copyR : ∀ n got, s.reader = .copy n got → s.pipe.rpos < s.pipe.wpos
  copyW : ∀ b todo, s.writer = .copy b todo →
    s.pipe.wpos < s.pipe.rpos + BY2PIPE ∧ s.pipe.wpos + 1 < 2 ^ 32
  wfd : s.wfd = !s.writer.fdGone
  wdata : s.wdata = !s.writer.dataGone

theorem PipeInv.init : PipeInv PipeSys.init := by
  refine ⟨by decide, by decide, by decide, rfl, ?_, rfl, ?_, ?_, rfl, rfl⟩
  · intro i _ hi
    exact absurd hi (Nat.not_lt_zero i)
  · intro n got h
    cases h
  · intro b todo h
    cases h

namespace PipeInv

variable {s : PipeSys}

/-- The reader moves on without taking a byte. -/
theorem setReader (h : PipeInv s) {r : ReadPc} {ret : List Nat}
    (hgot : ret ++ r.got = s.returned ++ s.reader.got)
    (hcopy : ∀ n got, r = .copy n got → s.pipe.rpos < s.pipe.wpos) :
    PipeInv { s with reader := r, returned := ret } :=
  ⟨h.le, h.room, h.lt, h.len, h.data, hgot.trans h.read, hcopy, h.copyW, h.wfd, h.wdata⟩

/-- The writer moves on without putting a byte. -/
theorem setWriter (h : PipeInv s) {w : WritePc} {fd data : Bool} (hfd : fd = !w.fdGone)
    (hdata : data = !w.dataGone)
    (hcopy : ∀ b todo, w = .copy b todo →
      s.pipe.wpos < s.pipe.rpos + BY2PIPE ∧ s.pipe.wpos + 1 < 2 ^ 32) :
    PipeInv { s with writer := w, wfd := fd, wdata := data } :=
  ⟨h.le, h.room, h.lt, h.len, h.data, h.read, h.copyR, hcopy, hfd, hdata⟩

/-- The reader takes the byte at `rpos`. -/
theorem copyOut (h : PipeInv s) {n : Nat} {got : List Nat} (hr : s.reader = .copy n got) :
    PipeInv s.pipeRead.1 := by
  have hle := h.le
  have hroom := h.room
  have hlt := h.copyR n got hr
  have hbound := h.lt
  have hmod : (s.pipe.rpos + 1) % 2 ^ 32 = s.pipe.rpos + 1 := Nat.mod_eq_of_lt (by omega)
  have hread := h.read
  simp only [PipeSys.pipeRead, hr, hmod]
  refine ⟨hlt, ?_, h.lt, h.len, ?_, ?_, ?_, ?_, h.wfd, h.wdata⟩
  · show s.pipe.wpos ≤ s.pipe.rpos + 1 + BY2PIPE
    omega
  · intro i hi hi'
    exact h.data i (Nat.le_of_succ_le hi) hi'
  · show s.returned ++ (got ++ [_]) = s.written.take (s.pipe.rpos + 1)
    rw [hr] at hread
    rw [List.take_add_one, ← hread, h.data s.pipe.rpos (Nat.le_refl _) hlt, ← List.append_assoc]
    rfl
  · intro n' got' h'
    cases h'
  · intro b todo hw
    have hc := h.copyW b todo hw
    show s.pipe.wpos < s.pipe.rpos + 1 + BY2PIPE ∧ s.pipe.wpos + 1 < 2 ^ 32
    omega

/-- The writer puts a byte at `wpos`. -/
theorem copyIn (h : PipeInv s) {b : Nat} {todo : List Nat} (hw : s.writer = .copy b todo) :
    PipeInv s.pipeWrite := by
  have hle := h.le
  obtain ⟨hfree, hbound⟩ := h.copyW b todo hw
  have hmod : (s.pipe.wpos + 1) % 2 ^ 32 = s.pipe.wpos + 1 := Nat.mod_eq_of_lt hbound
  have hlen := h.len
  have hwfd := h.wfd
  have hwdata := h.wdata
  rw [hw] at hwfd hwdata
  simp only [PipeSys.pipeWrite, hw, hmod]
  refine ⟨Nat.le_succ_of_le hle, hfree, hbound, ?_, ?_, ?_, ?_, ?_, hwfd, hwdata⟩
  · show (s.written ++ [b]).length = s.pipe.wpos + 1
    rw [List.length_append, hlen, List.length_singleton]
  · intro i hi hi'
    show (s.written ++ [b])[i]? = some (Function.update s.pipe.buf (s.pipe.wpos % BY2PIPE) b (i % BY2PIPE))
    rcases Nat.lt_or_ge i s.pipe.wpos with hold | hnew
    -- another byte of the buffer has another place in it
    · have hne : i % BY2PIPE ≠ s.pipe.wpos % BY2PIPE := by
        have hi'' : s.pipe.rpos ≤ i := hi
        unfold BY2PIPE at hfree ⊢
        omega
      rw [List.getElem?_append_left (by omega), Function.update_of_ne hne]
      exact h.data i hi hold
    · have hii : i = s.written.length := by
        have hi'' : i < s.pipe.wpos + 1 := hi'
        omega
      rw [hii, List.getElem?_concat_length, hlen, Function.update_self]
  · show s.returned ++ s.reader.got = (s.written ++ [b]).take s.pipe.rpos
    rw [List.take_append_of_le_length (by omega)]
    exact h.read
  · intro n got hr
    exact Nat.lt_succ_of_lt (h.copyR n got hr)
  · intro b' todo' h'
    cases h'

theorem pipeRead (h : PipeInv s) : PipeInv s.pipeRead.1 := by
  cases hr : s.reader with
  | idle =>
    simp only [PipeSys.pipeRead, hr]
    exact h
  | loop n got =>
    simp only [PipeSys.pipeRead, hr]
    split_ifs with hn he
    · exact h.setReader (by rw [hr]; rfl) (by intro _ _ h'; cases h')
    · exact h.setReader (by rw [hr]; rfl) (fun _ _ _ => Nat.lt_of_not_le he)
    · exact h.setReader (by rw [hr]; simp [ReadPc.got]) (by intro _ _ h'; cases h')
  | empty n got =>
    simp only [PipeSys.pipeRead, hr]
    split_ifs
    · exact h.setReader (by rw [hr]; simp [ReadPc.got]) (by intro _ _ h'; cases h')
    · exact h.setReader (by rw [hr]; rfl) (by intro _ _ h'; cases h')
  | copy n got => exact h.copyOut hr

/-- A test that did not find the pipe full leaves room for a byte, and the
position does not wrap. -/
theorem not_full (h : PipeInv s) (hfull : ¬ (s.pipe.rpos + BY2PIPE) % 2 ^ 32 ≤ s.pipe.wpos) :
    s.pipe.wpos < s.pipe.rpos + BY2PIPE ∧ s.pipe.wpos + 1 < 2 ^ 32 := by
  have hle := h.le
  have hlt := h.lt
  unfold BY2PIPE at hfull ⊢
  omega

theorem pipeWrite (h : PipeInv s) : PipeInv s.pipeWrite := by
  have hwfd := h.wfd
  have hwdata := h.wdata
  have hno : ∀ w : WritePc, (∀ b todo, w ≠ .copy b todo) → ∀ b todo, w = .copy b todo →
      s.pipe.wpos < s.pipe.rpos + BY2PIPE ∧ s.pipe.wpos + 1 < 2 ^ 32 :=
    fun w hw b todo h' => absurd h' (hw b todo)
  cases hw : s.writer with
  | idle =>
    simp only [PipeSys.pipeWrite, hw]
    exact h
  | loop todo =>
    rw [hw] at hwfd hwdata
    cases todo with
    | nil =>
      simp only [PipeSys.pipeWrite, hw]
      exact h.setWriter hwfd hwdata (hno _ (by simp))
    | cons b todo =>
      simp only [PipeSys.pipeWrite, hw]
      split_ifs with hfull
      · exact h.setWriter hwfd hwdata (hno _ (by simp))
      · exact h.setWriter hwfd hwdata (fun _ _ _ => h.not_full hfull)
  | full todo =>
    rw [hw] at hwfd hwdata
    simp only [PipeSys.pipeWrite, hw]
    split_ifs
    · exact h.setWriter hwfd hwdata (hno _ (by simp))
    · exact h.setWriter hwfd hwdata (hno _ (by simp))
  | copy b todo => exact h.copyIn hw
  | unmapFd =>
    rw [hw] at hwdata
    simp only [PipeSys.pipeWrite, hw]
    exact h.setWriter rfl hwdata (hno _ (by simp))
  | unmapData =>
    rw [hw] at hwfd
    simp only [PipeSys.pipeWrite, hw]
    exact h.setWriter hwfd rfl (hno _ (by simp))
  | fdClose =>
    rw [hw] at hwdata
    simp only [PipeSys.pipeWrite, hw]
    exact h.setWriter rfl hwdata (hno _ (by simp))
  | closed =>
    simp only [PipeSys.pipeWrite, hw]
    exact h

theorem step (h : PipeInv s) (a : PipeAct) : PipeInv (s.step a) := by
  cases a with
  | read n =>
    simp only [PipeSys.step]
    split_ifs with hidle
    · exact h.setReader (by rw [hidle]; rfl) (by intro _ _ h'; cases h')
    · exact h
  | reader => exact h.pipeRead
  | write bytes =>
    simp only [PipeSys.step]
    split_ifs with hidle
    · have hwfd := h.wfd
      have hwdata := h.wdata
      rw [hidle] at hwfd hwdata
      exact h.setWriter hwfd hwdata (by intro _ _ h'; cases h')
    · exact h
  | close =>
    simp only [PipeSys.step]
    split_ifs with hidle
    · have hwfd := h.wfd
      have hwdata := h.wdata
      rw [hidle] at hwfd hwdata
      exact h.setWriter hwfd hwdata (by intro _ _ h'; cases h')
    · exact h
  | writer => exact h.pipeWrite

end PipeInv

theorem PipeReach.inv {P : PipeSys → PipeAct → Prop} {s : PipeSys} (h : PipeReach P s) :
    PipeInv s := by
  induction h with
  | init => exact PipeInv.init
  | step a _ _ ih => exact ih.step a

-- ---------------------------------------------------------------------------
-- The end of the stream
-- ---------------------------------------------------------------------------

/-- A reader that found the pipe empty is right about it once the writer has
given up the page of the pipe. -/
def EmptyHolds (s : PipeSys) : Prop :=
  ∀ n, s.reader = .empty n [] → s.wdata = false → s.pipe.wpos ≤ s.pipe.rpos

theorem emptyHolds_pipeRead (s : PipeSys) : EmptyHolds s.pipeRead.1 := by
  intro n hr hdata
  cases hpc : s.reader with
  | idle =>
    simp only [PipeSys.pipeRead, hpc] at hr
    cases hr
  | loop m got =>
    simp only [PipeSys.pipeRead, hpc] at hr hdata ⊢
    split_ifs at hr hdata ⊢ with hm he
    exact he
  | empty m got =>
    simp only [PipeSys.pipeRead, hpc] at hr
    split_ifs at hr
  | copy m got =>
    simp only [PipeSys.pipeRead, hpc] at hr
    cases hr

theorem EmptyHolds.pipeWrite {s : PipeSys} (h : EmptyHolds s) (hinv : PipeInv s)
    (hsafe : TailSafe s .writer) : EmptyHolds s.pipeWrite := by
  have hwdata := hinv.wdata
  intro n hr hdata
  cases hw : s.writer with
  | loop todo =>
    cases todo with
    | nil =>
      simp only [PipeSys.pipeWrite, hw] at hr hdata ⊢
      exact h n hr hdata
    | cons b todo =>
      simp only [PipeSys.pipeWrite, hw] at hr hdata ⊢
      split_ifs at hr hdata ⊢
      · exact h n hr hdata
      · exact h n hr hdata
  | full todo =>
    simp only [PipeSys.pipeWrite, hw] at hr hdata ⊢
    split_ifs at hr hdata ⊢
    · exact h n hr hdata
    · exact h n hr hdata
  -- a writer that puts a byte still has the page
  | copy b todo =>
    rw [hw] at hwdata
    simp only [PipeSys.pipeWrite, hw] at hdata
    rw [hwdata] at hdata
    cases hdata
  | unmapData =>
    simp only [PipeSys.pipeWrite, hw] at hr ⊢
    exact hsafe rfl hw (by rw [hr]; rfl)
  | idle =>
    simp only [PipeSys.pipeWrite, hw] at hr hdata ⊢
    exact h n hr hdata
  | unmapFd =>
    simp only [PipeSys.pipeWrite, hw] at hr hdata ⊢
    exact h n hr hdata
  | fdClose =>
    simp only [PipeSys.pipeWrite, hw] at hr hdata ⊢
    exact h n hr hdata
  | closed =>
    simp only [PipeSys.pipeWrite, hw] at hr hdata ⊢
    exact h n hr hdata

theorem EmptyHolds.step {s : PipeSys} (h : EmptyHolds s) (hinv : PipeInv s) {a : PipeAct}
    (hsafe : TailSafe s a) : EmptyHolds (s.step a) := by
  cases a with
  | read n =>
    intro m hr hdata
    simp only [PipeSys.step] at hr hdata ⊢
    split_ifs at hr hdata ⊢
    exact h m hr hdata
  | reader => exact emptyHolds_pipeRead s
  | write bytes =>
    intro m hr hdata
    simp only [PipeSys.step] at hr hdata ⊢
    split_ifs at hr hdata ⊢
    · exact h m hr hdata
    · exact h m hr hdata
  | close =>
    intro m hr hdata
    simp only [PipeSys.step] at hr hdata ⊢
    split_ifs at hr hdata ⊢
    · exact h m hr hdata
    · exact h m hr hdata
  | writer => exact h.pipeWrite hinv hsafe

theorem PipeReach.emptyHolds {s : PipeSys} (h : PipeReach TailSafe s) : EmptyHolds s := by
  induction h with
  | init =>
    intro n hr
    cases hr
  | step a hs hsafe ih => exact ih.step hs.inv hsafe

/-- The only way to return 0 with `n > 0`: empty, no byte read, and closed. -/
theorem pipeRead_zero {s : PipeSys} {n : Nat} (hn : 0 < n) (hret : s.pipeRead.2 = some (n, 0)) :
    s.reader = .empty n [] ∧ s.wdata = false := by
  cases hpc : s.reader with
  | idle => simp [PipeSys.pipeRead, hpc] at hret
  | loop m got =>
    simp only [PipeSys.pipeRead, hpc] at hret
    split_ifs at hret
    obtain ⟨rfl, hm⟩ := Prod.mk.inj (Option.some.inj hret)
    omega
  | empty m got =>
    simp only [PipeSys.pipeRead, hpc] at hret
    split_ifs at hret with hc
    obtain ⟨rfl, hlen⟩ := Prod.mk.inj (Option.some.inj hret)
    obtain rfl := List.length_eq_zero_iff.mp hlen
    refine ⟨rfl, ?_⟩
    simpa [PipeSys.pipeIsClosed, PipeSys.rfdRef, PipeSys.pipeRef] using hc
  | copy m got => simp [PipeSys.pipeRead, hpc] at hret

/-- **End of file.** In every run whose steps are all `TailSafe`, a call of
`pipe_read` with `n > 0` returns 0 only when the write end is closed and every
byte written has been returned by an earlier call. -/
theorem pipeRead_eof {s : PipeSys} (h : PipeReach TailSafe s) {n : Nat} (hn : 0 < n)
    (hret : s.pipeRead.2 = some (n, 0)) : s.AtEnd := by
  have hinv := h.inv
  obtain ⟨hreader, hdata⟩ := pipeRead_zero hn hret
  have hle := h.emptyHolds n hreader hdata
  have hread := hinv.read
  refine ⟨?_, hdata, ?_⟩
  · have hwdata := hinv.wdata
    have hwfd := hinv.wfd
    rw [hdata] at hwdata
    cases hw : s.writer <;> simp [hw, WritePc.dataGone, WritePc.fdGone] at hwdata hwfd ⊢
    · exact hwfd
    · exact hwfd
  · rw [hreader] at hread
    rw [ReadPc.got, List.append_nil] at hread
    rw [hread, List.take_of_length_le]
    rw [hinv.len]
    exact hle

/-- The steps of a run meet `P`. -/
def PipeSys.Meets (P : PipeSys → PipeAct → Prop) (s : PipeSys) : List PipeAct → Prop
  | [] => True
  | a :: acts => P s a ∧ (s.step a).Meets P acts

theorem PipeReach.run {P : PipeSys → PipeAct → Prop} {s : PipeSys} (h : PipeReach P s)
    {acts : List PipeAct} (hP : s.Meets P acts) : PipeReach P (s.run acts) := by
  induction acts generalizing s with
  | nil => exact h
  | cons a acts ih => exact ih (h.step a hP.1) hP.2

instance (s : PipeSys) (a : PipeAct) : Decidable (TailSafe s a) :=
  inferInstanceAs (Decidable (a = .writer → s.writer = .unmapData → s.reader.foundEmpty = true →
    s.pipe.wpos ≤ s.pipe.rpos))

instance decidableMeets : ∀ (s : PipeSys) (acts : List PipeAct), Decidable (s.Meets TailSafe acts)
  | _, [] => .isTrue trivial
  | s, a :: acts =>
    have := decidableMeets (s.step a) acts
    inferInstanceAs (Decidable (TailSafe s a ∧ (s.step a).Meets TailSafe acts))

/-- A byte is written and read and the writer closes, before the reader looks
again. -/
def orderlyClose : List PipeAct :=
  [.write [7], .writer, .writer, .writer, .read 1, .reader, .reader, .reader, .close, .writer,
    .writer, .writer, .read 1, .reader]

theorem pipeRead_eof_orderly :
    (PipeSys.init.run orderlyClose).pipeRead.2 = some (1, 0) ∧
      (PipeSys.init.run orderlyClose).AtEnd := by
  have hmeets : PipeSys.init.Meets TailSafe orderlyClose := by decide
  have hret : (PipeSys.init.run orderlyClose).pipeRead.2 = some (1, 0) := by decide
  exact ⟨hret, pipeRead_eof (PipeReach.init.run hmeets) (by decide) hret⟩

/-- A step that is not `TailSafe` loses the bytes in the buffer: the next step of
the reader returns 0. -/
theorem pipeRead_loses_tail {P : PipeSys → PipeAct → Prop} {s : PipeSys} (h : PipeReach P s)
    (hbroken : ¬ TailSafe s .writer) :
    ∃ n, (s.step .writer).pipeRead.2 = some (n, 0) ∧ ¬ (s.step .writer).AtEnd := by
  have hinv := h.inv
  simp only [TailSafe, forall_const, Classical.not_imp, Nat.not_le] at hbroken
  obtain ⟨hw, hfound, hlt⟩ := hbroken
  obtain ⟨n, hr⟩ : ∃ n, s.reader = .empty n [] := by
    cases hr : s.reader with
    | empty n got =>
      cases got with
      | nil => exact ⟨n, rfl⟩
      | cons b got => simp [hr, ReadPc.foundEmpty] at hfound
    | idle => simp [hr, ReadPc.foundEmpty] at hfound
    | loop n got => simp [hr, ReadPc.foundEmpty] at hfound
    | copy n got => simp [hr, ReadPc.foundEmpty] at hfound
  have hstep : s.step .writer = { s with wdata := false, writer := .fdClose } := by
    simp only [PipeSys.step, PipeSys.pipeWrite, hw]
  refine ⟨n, ?_, ?_⟩
  · rw [hstep]
    simp [PipeSys.pipeRead, hr, PipeSys.pipeIsClosed, PipeSys.rfdRef, PipeSys.pipeRef]
  · rw [hstep]
    intro hend
    have hread := hinv.read
    have hret : s.returned = s.written := hend.2.2
    rw [hr, ReadPc.got, List.append_nil, hret] at hread
    have hlen := congrArg List.length hread
    rw [List.length_take, hinv.len] at hlen
    omega

/-- The writer writes a byte and closes between the two tests of the reader. -/
def closeInBetween : List PipeAct :=
  [.read 1, .reader, .write [7], .writer, .writer, .writer, .close, .writer, .writer]

theorem pipeRead_eof_early :
    ∃ acts n, 0 < n ∧ (PipeSys.init.run acts).pipeRead.2 = some (n, 0) ∧
      ¬ (PipeSys.init.run acts).AtEnd := by
  refine ⟨closeInBetween, 1, by decide, by decide, ?_⟩
  intro hend
  have hret : (PipeSys.init.run closeInBetween).returned = (PipeSys.init.run closeInBetween).written :=
    hend.2.2
  exact absurd hret (by decide)

end Mos.User
