import Mos.User.Pipe

/-!
# MOS on RISC-V — a pipe over runs of any length

The pipe of `user/lib/pipe.c` between one reader and one writer, whatever the
order of their steps and however many bytes pass through it.

`p_rpos` and `p_wpos` are 32-bit counters that nothing resets, compared with
`>=`. The writer's test `p_wpos >= p_rpos + BY2PIPE` wraps on its right side
before a position could: at `p_rpos >= 2^32 - BY2PIPE` it holds with any
`p_wpos`. So no position ever wraps, which is why the bytes stay in order
(`pipe_fifo`), and also why the pipe comes to a stop: empty to the reader and
full to the writer at once, as soon as the reader takes the last byte of the
buffer with that many bytes behind it (`pipe_notStuck_iff`), and for good
(`PipeSys.Stuck.run`).
-/

namespace Mos.User

-- ---------------------------------------------------------------------------
-- First in, first out
-- ---------------------------------------------------------------------------

/-- The bytes handed to the reader so far: those of the calls that returned, then
those of the call it is in. -/
def PipeSys.delivered (s : PipeSys) : List Nat := s.returned ++ s.reader.got

theorem PipeInv.delivered {s : PipeSys} (h : PipeInv s) :
    s.delivered = s.written.take s.pipe.rpos :=
  h.read

/-- **First in, first out.** In every state of every run the bytes handed to the
reader, and so those returned by its calls, begin the bytes put into the pipe,
and at most `BY2PIPE` of these are still to come. -/
theorem pipe_fifo (acts : List PipeAct) :
    let s := PipeSys.init.run acts
    s.returned <+: s.delivered ∧ s.delivered <+: s.written ∧
      s.delivered.length ≤ s.written.length ∧
      s.written.length - s.delivered.length ≤ BY2PIPE := by
  intro s
  have hmeets : ∀ (acts : List PipeAct) (s : PipeSys), s.Meets (fun _ _ => True) acts := by
    intro acts
    induction acts with
    | nil => exact fun _ => trivial
    | cons a acts ih => exact fun s => ⟨trivial, ih (s.step a)⟩
  have hinv : PipeInv s := (PipeReach.init.run (hmeets acts _)).inv
  have hpre : s.delivered <+: s.written := by
    rw [hinv.delivered]
    exact List.take_prefix _ _
  have hlen : s.delivered.length = s.pipe.rpos := by
    have hle := hinv.le
    rw [hinv.delivered, List.length_take, hinv.len]
    omega
  refine ⟨List.prefix_append _ _, hpre, hpre.length_le, ?_⟩
  have hroom := hinv.room
  rw [hlen, hinv.len]
  omega

-- ---------------------------------------------------------------------------
-- Empty and full
-- ---------------------------------------------------------------------------

namespace PipeSys

/-- The test of `pipe_read` that finds the pipe empty. -/
def looksEmpty (s : PipeSys) : Prop := s.pipe.wpos ≤ s.pipe.rpos

/-- The test of `pipe_write` that finds the pipe full. -/
def looksFull (s : PipeSys) : Prop := (s.pipe.rpos + BY2PIPE) % 2 ^ 32 ≤ s.pipe.wpos

/-- Both ends wait for the other. -/
def Stuck (s : PipeSys) : Prop := s.looksEmpty ∧ s.looksFull

end PipeSys

/-- The reader does not take the last byte of the buffer when `2^32 - BY2PIPE`
bytes or more went through the pipe. -/
def LeavesByte (s : PipeSys) (a : PipeAct) : Prop :=
  a = .reader → (∃ n got, s.reader = .copy n got) → s.pipe.rpos + 1 = s.pipe.wpos →
    s.pipe.wpos < 2 ^ 32 - BY2PIPE

/-- The two tests agree only where the writer's sum wraps. -/
theorem PipeInv.stuck_iff {s : PipeSys} (h : PipeInv s) :
    s.Stuck ↔ s.pipe.rpos = s.pipe.wpos ∧ 2 ^ 32 - BY2PIPE ≤ s.pipe.wpos := by
  have hle := h.le
  have hlt := h.lt
  unfold PipeSys.Stuck PipeSys.looksEmpty PipeSys.looksFull BY2PIPE
  omega

/-- A step of the reader leaves the positions alone, unless it takes a byte. -/
theorem PipeInv.pipeRead_pos {s : PipeSys} (h : PipeInv s) :
    ((∃ n got, s.reader = .copy n got) ∧ s.pipeRead.1.pipe.rpos = s.pipe.rpos + 1 ∧
        s.pipeRead.1.pipe.wpos = s.pipe.wpos) ∨
      ((¬ ∃ n got, s.reader = .copy n got) ∧ s.pipeRead.1.pipe = s.pipe) := by
  cases hr : s.reader with
  | idle =>
    right
    simp only [PipeSys.pipeRead, hr]
    exact ⟨by simp, trivial⟩
  | loop n got =>
    right
    simp only [PipeSys.pipeRead, hr]
    refine ⟨by simp, ?_⟩
    split_ifs <;> rfl
  | empty n got =>
    right
    simp only [PipeSys.pipeRead, hr]
    refine ⟨by simp, ?_⟩
    split_ifs <;> rfl
  | copy n got =>
    left
    have hlt := h.copyR n got hr
    have hbound := h.lt
    have hmod : (s.pipe.rpos + 1) % 2 ^ 32 = s.pipe.rpos + 1 := Nat.mod_eq_of_lt (by omega)
    simp only [PipeSys.pipeRead, hr, hmod]
    exact ⟨⟨n, got, rfl⟩, trivial, trivial⟩

/-- A step of the writer leaves the positions alone, or puts a byte behind the
reader's. -/
theorem PipeInv.pipeWrite_pos {s : PipeSys} (h : PipeInv s) :
    s.pipeWrite.pipe = s.pipe ∨
      (s.pipeWrite.pipe.rpos < s.pipeWrite.pipe.wpos ∧ ∃ b todo, s.writer = .copy b todo) := by
  cases hw : s.writer with
  | copy b todo =>
    right
    have hle := h.le
    have hmod : (s.pipe.wpos + 1) % 2 ^ 32 = s.pipe.wpos + 1 :=
      Nat.mod_eq_of_lt (h.copyW b todo hw).2
    simp only [PipeSys.pipeWrite, hw, hmod]
    exact ⟨Nat.lt_succ_of_le hle, b, todo, rfl⟩
  | loop todo =>
    left
    cases todo with
    | nil => simp only [PipeSys.pipeWrite, hw]
    | cons b todo =>
      simp only [PipeSys.pipeWrite, hw]
      split_ifs <;> rfl
  | full todo =>
    left
    simp only [PipeSys.pipeWrite, hw]
    split_ifs <;> rfl
  | idle =>
    left
    simp only [PipeSys.pipeWrite, hw]
  | unmapFd =>
    left
    simp only [PipeSys.pipeWrite, hw]
  | unmapData =>
    left
    simp only [PipeSys.pipeWrite, hw]
  | fdClose =>
    left
    simp only [PipeSys.pipeWrite, hw]
  | closed =>
    left
    simp only [PipeSys.pipeWrite, hw]

theorem PipeSys.Stuck.of_pipe {s s' : PipeSys} (hpipe : s'.pipe = s.pipe) :
    s'.Stuck ↔ s.Stuck := by
  unfold PipeSys.Stuck PipeSys.looksEmpty PipeSys.looksFull
  rw [hpipe]

/-- A pipe that moves comes to a stop in one step exactly when the reader takes
the last byte too late. -/
theorem PipeInv.stuck_step {s : PipeSys} (h : PipeInv s) (hmoves : ¬ s.Stuck) (a : PipeAct) :
    ¬ (s.step a).Stuck ↔ LeavesByte s a := by
  have hstay : (s.step a).pipe = s.pipe → a ≠ .reader → (¬ (s.step a).Stuck ↔ LeavesByte s a) := by
    intro hpipe hne
    rw [PipeSys.Stuck.of_pipe hpipe]
    exact ⟨fun _ ha => absurd ha hne, fun _ => hmoves⟩
  cases a with
  | read n =>
    refine hstay ?_ (fun ha => PipeAct.noConfusion ha)
    simp only [PipeSys.step]
    split_ifs <;> rfl
  | write bytes =>
    refine hstay ?_ (fun ha => PipeAct.noConfusion ha)
    simp only [PipeSys.step]
    split_ifs <;> rfl
  | close =>
    refine hstay ?_ (fun ha => PipeAct.noConfusion ha)
    simp only [PipeSys.step]
    split_ifs <;> rfl
  | reader =>
    have hinv' : PipeInv (s.step .reader) := h.step .reader
    rcases h.pipeRead_pos with ⟨hcopy, hrpos, hwpos⟩ | ⟨hcopy, hpipe⟩
    · have hr : (s.step .reader).pipe.rpos = s.pipe.rpos + 1 := hrpos
      have hw : (s.step .reader).pipe.wpos = s.pipe.wpos := hwpos
      rw [hinv'.stuck_iff, hr, hw]
      constructor
      · intro hnot _ _ hlast
        exact Nat.lt_of_not_le fun hge => hnot ⟨hlast, hge⟩
      · rintro hleave ⟨hlast, hge⟩
        exact absurd (hleave rfl hcopy hlast) (Nat.not_lt_of_le hge)
    · have hpipe' : (s.step .reader).pipe = s.pipe := hpipe
      rw [PipeSys.Stuck.of_pipe hpipe']
      exact ⟨fun _ _ hcopy' => absurd hcopy' hcopy, fun _ => hmoves⟩
  | writer =>
    rcases h.pipeWrite_pos with hpipe | ⟨hlt, -⟩
    · exact hstay hpipe fun ha => PipeAct.noConfusion ha
    -- a byte is in the buffer now
    · refine ⟨fun _ ha => PipeAct.noConfusion ha, fun _ hstuck => ?_⟩
      exact absurd hstuck.1 (Nat.not_le_of_lt hlt)

/-- **Never both empty and full.** A run has no state in which the pipe is empty
to the reader and full to the writer exactly when its reader never takes the
last byte of the buffer after `2^32 - BY2PIPE` bytes. -/
theorem pipe_notStuck_iff (acts : List PipeAct) :
    (∀ pre, pre <+: acts → ¬ (PipeSys.init.run pre).Stuck) ↔
      PipeSys.init.Meets LeavesByte acts := by
  -- from any state that is not stuck
  suffices hgen : ∀ (acts : List PipeAct) (s : PipeSys), PipeInv s → ¬ s.Stuck →
      ((∀ pre, pre <+: acts → ¬ (s.run pre).Stuck) ↔ s.Meets LeavesByte acts) by
    refine hgen acts PipeSys.init PipeInv.init ?_
    rw [PipeInv.init.stuck_iff]
    decide
  intro acts
  induction acts with
  | nil =>
    intro s _ hmoves
    refine ⟨fun _ => trivial, fun _ pre hpre => ?_⟩
    rw [List.prefix_nil.mp hpre]
    exact hmoves
  | cons a acts ih =>
    intro s hinv hmoves
    have hstep := hinv.stuck_step hmoves a
    constructor
    · intro hall
      have hnext : ¬ (s.step a).Stuck := hall [a] (by simp)
      refine ⟨hstep.mp hnext, (ih (s.step a) (hinv.step a) hnext).mp fun pre hpre => ?_⟩
      exact hall (a :: pre) (List.cons_prefix_cons.mpr ⟨rfl, hpre⟩)
    · rintro ⟨hleave, hmeets⟩ pre hpre
      have hnext := hstep.mpr hleave
      cases pre with
      | nil => exact hmoves
      | cons a' pre =>
        obtain ⟨rfl, hpre'⟩ := List.cons_prefix_cons.mp hpre
        exact (ih (s.step a') (hinv.step a') hnext).mpr hmeets pre hpre'

/-- A pipe that stopped stays so: neither end takes or puts a byte again. -/
theorem PipeSys.Stuck.run {s : PipeSys} (h : s.Stuck) (hinv : PipeInv s) (acts : List PipeAct)
    (hidle : ∀ b todo, s.writer ≠ .copy b todo) : (s.run acts).pipe = s.pipe := by
  induction acts generalizing s with
  | nil => rfl
  | cons a acts ih =>
    have hempty : s.pipe.wpos ≤ s.pipe.rpos := h.1
    have hfull : (s.pipe.rpos + BY2PIPE) % 2 ^ 32 ≤ s.pipe.wpos := h.2
    suffices hstep : (s.step a).pipe = s.pipe ∧ ∀ b todo, (s.step a).writer ≠ .copy b todo by
      have hrest := ih ((PipeSys.Stuck.of_pipe hstep.1).mpr h) (hinv.step a) hstep.2
      exact hrest.trans hstep.1
    cases a with
    | read n =>
      simp only [PipeSys.step]
      split_ifs
      · exact ⟨rfl, hidle⟩
      · exact ⟨rfl, hidle⟩
    | write bytes =>
      simp only [PipeSys.step]
      split_ifs
      · exact ⟨rfl, by simp⟩
      · exact ⟨rfl, hidle⟩
    | close =>
      simp only [PipeSys.step]
      split_ifs
      · exact ⟨rfl, by simp⟩
      · exact ⟨rfl, hidle⟩
    | reader =>
      have hcopy : ¬ ∃ n got, s.reader = .copy n got := by
        rintro ⟨n, got, hr⟩
        exact absurd (hinv.copyR n got hr) (Nat.not_lt_of_le hempty)
      refine ⟨?_, ?_⟩
      · rcases hinv.pipeRead_pos with ⟨hcopy', -, -⟩ | ⟨-, hpipe⟩
        · exact absurd hcopy' hcopy
        · exact hpipe
      · show ∀ b todo, s.pipeRead.1.writer ≠ .copy b todo
        cases hr : s.reader <;> simp only [PipeSys.pipeRead, hr]
        · exact hidle
        · split_ifs <;> exact hidle
        · split_ifs <;> exact hidle
        · exact hidle
    | writer =>
      rcases hinv.pipeWrite_pos with hpipe | ⟨-, b, todo, hw⟩
      · refine ⟨hpipe, ?_⟩
        show ∀ b todo, s.pipeWrite.writer ≠ .copy b todo
        cases hw : s.writer with
        | loop todo =>
          cases todo with
          | nil => simp [PipeSys.pipeWrite, hw]
          | cons b todo => simp [PipeSys.pipeWrite, hw, hfull, -Nat.reducePow]
        | full todo =>
          simp only [PipeSys.pipeWrite, hw]
          split_ifs <;> simp
        | copy b todo => exact absurd hw (hidle b todo)
        | idle => simp [PipeSys.pipeWrite, hw]
        | unmapFd => simp [PipeSys.pipeWrite, hw]
        | unmapData => simp [PipeSys.pipeWrite, hw]
        | fdClose => simp [PipeSys.pipeWrite, hw]
        | closed => simp [PipeSys.pipeWrite, hw]
      · exact absurd hw (hidle b todo)

-- ---------------------------------------------------------------------------
-- A pipe that stops
-- ---------------------------------------------------------------------------

/-- A byte is written and read. -/
def oneByte : List PipeAct :=
  [.write [0], .writer, .writer, .writer, .read 1, .reader, .reader, .reader]

/-- Both ends are between two calls, the pipe is open, and `n` bytes went
through it. -/
def Passed (n : Nat) (s : PipeSys) : Prop :=
  s.reader = .idle ∧ s.writer = .idle ∧ s.wfd = true ∧ s.wdata = true ∧
    s.pipe.rpos = n ∧ s.pipe.wpos = n

theorem Passed.oneByte {n : Nat} {s : PipeSys} (h : Passed n s) (hn : n + BY2PIPE < 2 ^ 32) :
    Passed (n + 1) (s.run oneByte) := by
  obtain ⟨⟨rpos, wpos, buf⟩, reader, writer, wfd, wdata, written, returned⟩ := s
  obtain ⟨hr, hw, hfd, hdata, hrpos, hwpos⟩ := h
  simp only at hr hw hfd hdata hrpos hwpos
  subst hr hw hfd hdata hwpos
  subst hrpos
  have hsum : (rpos + BY2PIPE) % 2 ^ 32 = rpos + BY2PIPE := Nat.mod_eq_of_lt hn
  have hmod : (rpos + 1) % 2 ^ 32 = rpos + 1 := by
    refine Nat.mod_eq_of_lt ?_
    unfold BY2PIPE at hn
    omega
  have hroom : ¬ rpos + BY2PIPE ≤ rpos := by
    unfold BY2PIPE
    omega
  have hbyte : ¬ rpos + 1 ≤ rpos := by omega
  simp [Passed, User.oneByte, PipeSys.run, PipeSys.step, PipeSys.pipeWrite, PipeSys.pipeRead, hsum,
    hmod, hroom, hbyte, -Nat.reducePow]

/-- `n` bytes, one after the other. -/
def bytesOneByOne (n : Nat) : List PipeAct := (List.replicate n oneByte).flatten

theorem passed_bytesOneByOne {n : Nat} (hn : n + BY2PIPE ≤ 2 ^ 32) :
    Passed n (PipeSys.init.run (bytesOneByOne n)) := by
  induction n with
  | zero => exact ⟨rfl, rfl, rfl, rfl, rfl, rfl⟩
  | succ n ih =>
    have hrun : PipeSys.init.run (bytesOneByOne (n + 1)) =
        (PipeSys.init.run (bytesOneByOne n)).run oneByte := by
      unfold bytesOneByOne PipeSys.run
      rw [List.replicate_succ', List.flatten_append, List.foldl_append, List.flatten_singleton]
    rw [hrun]
    exact (ih (by omega)).oneByte (by omega)

theorem close_not_mem_bytesOneByOne (n : Nat) : .close ∉ bytesOneByOne n := by
  intro hmem
  obtain ⟨l, hl, hmem⟩ := List.mem_flatten.mp hmem
  rw [List.eq_of_mem_replicate hl] at hmem
  simp [oneByte] at hmem

/-- After `2^32 - BY2PIPE` bytes the open pipe is empty to the reader and full to
the writer. -/
theorem pipe_stuck :
    ∃ acts, PipeAct.close ∉ acts ∧ (PipeSys.init.run acts).looksEmpty ∧
      (PipeSys.init.run acts).looksFull := by
  refine ⟨bytesOneByOne (2 ^ 32 - BY2PIPE), close_not_mem_bytesOneByOne _, ?_⟩
  obtain ⟨-, -, -, -, hr, hw⟩ := passed_bytesOneByOne (n := 2 ^ 32 - BY2PIPE) (by decide)
  unfold PipeSys.looksEmpty PipeSys.looksFull
  rw [hr, hw]
  decide

end Mos.User
