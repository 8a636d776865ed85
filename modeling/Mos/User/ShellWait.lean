import Mos.User.Shell

/-!
# MOS on RISC-V — the shell waits for a pipeline

`runcmd` waits for the program it has spawned, and for `rightpipe` if that is not zero.
`parsecmd` never assigns `*rightpipe`, so nobody waits for the right side of a pipe.

Main results:

* `careful_parsecmd` — a stage without a pipe has waited for its program when it exits;
* `leaves_parsecmd` — a stage with a pipe can exit before the right side of the pipe;
* `mainRound_right_iff` — the processes of a line end in order exactly if the first stage
  forks at no pipe.
-/

namespace Mos.User

open Mos.Lib Mos.Base

/-- The answers when every `pipe` succeeds. -/
def Answers : (r : ShellReq) → r.Ans → Prop
  | .pipe, a => 0 ≤ a.1
  | _, _ => True

/-- In every run of a round of `main`: when a process has ended, its children have, and when
the round is through, there is no process but the shell. -/
def PipelineRight (fuel s : Nat) (x : Shell) (shell : Nat) : Prop :=
  ∀ st, Procs.Reach Answers (Procs.start shell (mainRound fuel s x)) st →
    st.Orderly ∧ (st.live shell = some (.code (.ret ())) → ∀ j, j ≠ shell → st.live j = none)

/-- The stage that is read forks at a pipe; it has `argc` words so far. -/
def Piped : Nat → List Token → Prop
  | _, [] => False
  | argc, .word _ :: ks => argc < MAXARGS ∧ Piped (argc + 1) ks
  | argc, .symbol c :: ks =>
    if isRedirect c then
      match ks with
      | .word _ :: ks => Piped argc ks
      | _ => False
    else c = chr '|' ∨ Piped argc ks

section Condition

variable {argc : Nat} {ks : List Token} {c : BitVec 8} {w : Text}

theorem piped_redirect (hc : isRedirect c) : Piped argc (.symbol c :: .word w :: ks) ↔ Piped argc ks := by
  rw [Piped, if_pos hc]

theorem not_piped_error (hc : isRedirect c) (hks : kindOf ks ≠ chr 'w') : ¬ Piped argc (.symbol c :: ks) := by
  rw [Piped.eq_def]
  refine (Iff.of_eq (congrArg Not (if_pos hc))).mpr ?_
  cases ks with
  | nil => exact id
  | cons k ks =>
    cases k with
    | word w => exact absurd rfl hks
    | symbol d => exact id

theorem piped_symbol (hc : ¬ isRedirect c) : Piped argc (.symbol c :: ks) ↔ c = chr '|' ∨ Piped argc ks := by
  rw [Piped.eq_def]
  exact Iff.of_eq (if_neg hc)

end Condition

-- ---------------------------------------------------------------------------
-- A stage without a pipe
-- ---------------------------------------------------------------------------

section NoPipe

variable {fuel n argc : Nat} {x : Shell} {ks : List Token}

/-- The program of the process that runs a stage, once `argc` words have been read. -/
def stageFrom (fuel n argc : Nat) (x : Shell) : ShellM Unit :=
  (parsecmd fuel n argc x >>= fun r => runStage r.1 r.2) >>= fun _ => exit

theorem careful_message {α β : Type} (text : String) (f : α → ShellM β) (g : β → ShellM Unit) :
    Careful [] (((ask (.debugf text []) >>= fun _ => (exit : ShellM α)) >>= f) >>= g) := by
  intro _
  show Careful [] ((exit >>= f) >>= g)
  rw [exit_bind, exit_bind]
  rfl

/-- `runcmd` and `exit` behind `close_all`. -/
def afterSpawn (x : Shell) (child : Int) : ShellM Unit :=
  (awaitChild child x >>= fun _ => awaitRight x) >>= fun _ => exit

/-- It does not wait for more than the program. -/
theorem afterSpawn_eq (hx : x.rightpipe = 0) {child : Int} (hchild : 0 < child) :
    afterSpawn x child = waitProc child >>= fun _ => exit := by
  unfold afterSpawn awaitChild awaitRight
  rw [if_pos (Int.le_of_lt hchild), if_neg (not_not_intro hx)]
  exact congrArg (Program.ask (ProcReq.wait child)) (funext fun _ => exit_bind _)

/-- The end of a stage that has words. -/
theorem runStage_eq (x : Shell) (hargc : argc ≠ 0) :
    ∃ x', x'.rightpipe = x.rightpipe ∧ (runStage argc x >>= fun _ => exit) =
      (ask (.store argc 0) >>= fun _ => spawnProc ⟨x'.argv 0, x'.argv⟩ >>= fun child =>
        ask .closeAll >>= fun _ => afterSpawn x' child) := by
  refine ⟨{ x with argv := Function.update x.argv argc 0 }, rfl, ?_⟩
  unfold runStage
  rw [if_neg hargc]
  rfl

theorem careful_runStage (hx : x.rightpipe = 0) : Careful [] (runStage argc x >>= fun _ => exit) := by
  by_cases hargc : argc = 0
  · unfold runStage
    rw [if_pos hargc]
    rfl
  · obtain ⟨x', hx', hrun⟩ := runStage_eq x hargc
    rw [hrun]
    intro _ child hchild _
    show Careful [child] (afterSpawn x' child)
    rw [afterSpawn_eq (hx'.trans hx) hchild]
    show [child].filter (· ≠ child) = []
    rw [List.filter_cons_of_neg (by simp), List.filter_nil]

theorem careful_parsecmd (h : Parsing fuel ks x) (hn : ks.length < n) (argc : Nat) (hpiped : ¬ Piped argc ks) :
    Careful [] (stageFrom fuel n argc x) := by
  revert hpiped
  refine h.induct (motive := fun argc ks p => ¬ Piped argc ks →
      Careful [] ((p >>= fun r => runStage r.1 r.2) >>= fun _ => exit))
    ?line ?tooMany ?word ?syntaxError ?redirect ?pipe ?skip hn argc
  case line => exact fun argc x hx _ => careful_runStage hx
  case tooMany => exact fun argc w ks text _ _ => careful_message text _ _
  case word => exact fun argc w ks t p hlt ih hpiped _ => ih fun hp => hpiped ⟨hlt, hp⟩
  case syntaxError => exact fun argc c ks text _ _ _ => careful_message text _ _
  case redirect =>
    intro argc c w ks t mode newfd p hc ih hpiped
    rw [piped_redirect hc] at hpiped
    exact fun _ _ _ => ih hpiped
  case pipe => exact fun argc ks x p _ _ hpiped => absurd ((piped_symbol (by decide)).mpr (Or.inl rfl)) hpiped
  case skip =>
    intro argc c ks p hc _ ih hpiped
    rw [piped_symbol hc, not_or] at hpiped
    exact ih hpiped.2

end NoPipe

-- ---------------------------------------------------------------------------
-- A stage with a pipe
-- ---------------------------------------------------------------------------

section Pipe

variable {fuel n argc i j : Nat} {x : Shell} {ks : List Token} {s : Procs Command ShellReq.Ans}

/-- The process `j` is a child of the process `i`, and lives. -/
structure Left (s : Procs Command ShellReq.Ans) (i j : Nat) : Prop where
  parent : s.parent j = some i
  live : s.live j ≠ none
  ne : j ≠ i
  lt : j < s.next
  lt' : i < s.next

theorem Left.set {k : Nat} {o : Option (Lib.Proc Command ShellReq.Ans)} (h : Left s i j) (hk : k ≠ j) :
    Left (s.set k o) i j :=
  ⟨h.parent, by rw [Procs.set_of_ne hk.symm]; exact h.live, h.ne, h.lt, h.lt'⟩

theorem Left.make {q q' : Lib.Proc Command ShellReq.Ans} (h : Left s i j) : Left (s.make i q q') i j := by
  have hne : j ≠ s.next := Nat.ne_of_lt h.lt
  refine ⟨?_, ?_, h.ne, Nat.lt_succ_of_lt h.lt, Nat.lt_succ_of_lt h.lt'⟩
  · rw [Procs.make_parent_of_ne hne]
    exact h.parent
  · rw [Procs.make_of_ne h.ne hne]
    exact h.live

/-- The process `i` can end although its child `j` lives. -/
def Leaves (s : Procs Command ShellReq.Ans) (i : Nat) : Prop :=
  ∃ s' j, Procs.Reach Answers s s' ∧ s'.live i = none ∧ Left s' i j

theorem Leaves.step {s' : Procs Command ShellReq.Ans} (hstep : Procs.Step Answers s s') (h : Leaves s' i) : Leaves s i := by
  obtain ⟨s'', j, hreach, hended, hleft⟩ := h
  exact ⟨s'', j, .head hstep hreach, hended, hleft⟩

theorem Left.exit (h : Left s i j) (hi : s.live i = some (.code Mos.User.exit)) : Leaves s i :=
  ⟨s.set i none, j, .single (.exit hi), Procs.set_self, h.set h.ne.symm⟩

/-- A program that is spawned, and only waited for. -/
theorem Left.spawnWait {c : Command} {f : Int → ShellM Unit} (h : Left s i j)
    (hi : s.live i = some (.code (spawnProc c >>= fun child => ask .closeAll >>= fun _ => f child)))
    (hf : f s.next = (waitProc s.next >>= fun _ => Mos.User.exit)) : Leaves s i := by
  have hne : i ≠ s.next := Nat.ne_of_lt h.lt'
  have hspawn : Procs.Step Answers s (s.make i (.code (ask .closeAll >>= fun _ => f s.next)) (.loaded c)) := .spawn hi
  have h₁ : Left (s.make i (.code (ask .closeAll >>= fun _ => f s.next)) (.loaded c)) i j := h.make
  have hown : (s.make i (.code (ask .closeAll >>= fun _ => f s.next)) (.loaded c)).live i =
      some (.code (ask .closeAll >>= fun _ => f s.next)) := Procs.make_self hne
  have hnew : (s.make i (.code (ask .closeAll >>= fun _ => f s.next)) (.loaded c)).live s.next = some (.loaded c) :=
    Procs.make_next
  refine .step hspawn ?_
  generalize s.make i (.code (ask .closeAll >>= fun _ => f s.next)) (.loaded c) = s₁ at h₁ hown hnew
  have hclose : Procs.Step Answers s₁ (s₁.set i (some (.code (f s.next)))) := .other hown (a := ()) trivial
  refine .step hclose (.step (.ends ((Procs.set_of_ne hne.symm).trans hnew)) ?_)
  have hwait : ((s₁.set i (some (.code (f s.next)))).set s.next none).live i =
      some (.code (waitProc s.next >>= fun _ => Mos.User.exit)) := by
    rw [Procs.set_of_ne hne, Procs.set_self, hf]
  have h₃ : Left ((s₁.set i (some (.code (f s.next)))).set s.next none) i j :=
    (h₁.set h.ne.symm).set (Nat.ne_of_gt h.lt)
  refine .step (.wait hwait fun k hk => ?_) ((h₃.set h.ne.symm).exit Procs.set_self)
  rw [← Int.ofNat.inj hk]
  exact Procs.set_self

/-- The rest of the stage: it waits for its own program only. -/
theorem Left.runStage (h : Left s i j) (hx : x.rightpipe = 0)
    (hi : s.live i = some (.code (Mos.User.runStage argc x >>= fun _ => Mos.User.exit))) : Leaves s i := by
  by_cases hargc : argc = 0
  · unfold Mos.User.runStage at hi
    rw [if_pos hargc] at hi
    exact h.exit hi
  · obtain ⟨x', hx', hrun⟩ := runStage_eq x hargc
    rw [hrun] at hi
    have hpos : (0 : Int) < s.next := Int.natCast_pos.mpr (Nat.zero_lt_of_lt h.lt)
    refine .step (.other hi (a := ()) trivial) ?_
    exact (h.set h.ne.symm).spawnWait Procs.set_self (afterSpawn_eq (hx'.trans hx) hpos)

/-- The stage at a pipe, if `pipe` and `fork` succeed. -/
theorem forkPipe_eq (argc : Nat) (x : Shell) (p : ShellM (Nat × Shell)) :
    ∃ (f : Int × Int × Int → ShellM Unit) (g : Int → ShellM Unit),
      ((forkPipe argc x p >>= fun r => runStage r.1 r.2) >>= fun _ => exit) = (ask .pipe >>= f) ∧
      f (0, 0, 1) = (forkProc >>= g) ∧ ∀ child : Int, 0 < child → g child = (ask (.dup 1 1) >>= fun _ =>
        ask (.close 1) >>= fun _ => ask (.close 0) >>= fun _ => runStage argc x >>= fun _ => exit) := by
  refine ⟨_, _, rfl, rfl, fun child hchild => ?_⟩
  show ((if child < 0 then _ else _ : ShellM (Nat × Shell)) >>= fun r => runStage r.1 r.2) >>= (fun _ => exit) = _
  rw [if_neg (by omega), if_neg (by omega)]
  rfl

/-- At a pipe: the child is the right side, which need not take a step. -/
theorem leaves_forkPipe {p : ShellM (Nat × Shell)} (hx : x.rightpipe = 0) (hlt : i < s.next)
    (hi : s.live i = some (.code ((forkPipe argc x p >>= fun r => runStage r.1 r.2) >>= fun _ => exit))) :
    Leaves s i := by
  obtain ⟨f, g, hrun, hf, hg⟩ := forkPipe_eq argc x p
  rw [hrun] at hi
  have hpipe : Procs.Step Answers s (s.set i (some (.code (f (0, 0, 1))))) := .other hi (Int.le_refl 0)
  have hfork : (s.set i (some (.code (f (0, 0, 1))))).live i = some (.code (forkProc >>= g)) := by
    rw [Procs.set_self, hf]
  refine .step hpipe (.step (.fork hfork) ?_)
  generalize hs₁ : s.set i (some (.code (f (0, 0, 1)))) = s₁
  have hlt₁ : i < s₁.next := by
    rw [← hs₁]
    exact hlt
  have hleft : Left (s₁.make i (.code (g s₁.next)) (.code (g 0))) i s₁.next :=
    ⟨Procs.make_parent_next, by rw [Procs.make_next]; exact Option.some_ne_none _, Nat.ne_of_gt hlt₁,
      Nat.lt_succ_self _, Nat.lt_succ_of_lt hlt₁⟩
  have hne : i ≠ s₁.next := Nat.ne_of_lt hlt₁
  have hown : (s₁.make i (.code (g s₁.next)) (.code (g 0))).live i = some (.code (g s₁.next)) := Procs.make_self hne
  have hpos : (0 : Int) < s₁.next := Int.natCast_pos.mpr (Nat.zero_lt_of_lt hlt₁)
  show Leaves (s₁.make i (.code (g s₁.next)) (.code (g 0))) i
  generalize s₁.make i (.code (g s₁.next)) (.code (g 0)) = s₂ at hleft hown
  rw [hg s₁.next hpos] at hown
  refine .step (.other hown (a := (0 : Int)) trivial) (.step (.other Procs.set_self (a := (0 : Int)) trivial)
    (.step (.other Procs.set_self (a := (0 : Int)) trivial) ?_))
  exact (((hleft.set hne).set hne).set hne).runStage hx Procs.set_self

/-- From any token on. -/
theorem leaves_parsecmd (h : Parsing fuel ks x) (hn : ks.length < n) (argc : Nat) (hpiped : Piped argc ks) :
    ∀ s : Procs Command ShellReq.Ans, i < s.next → s.live i = some (.code (stageFrom fuel n argc x)) → Leaves s i := by
  revert hpiped
  refine h.induct (motive := fun argc ks p => Piped argc ks → ∀ s : Procs Command ShellReq.Ans, i < s.next →
      s.live i = some (.code ((p >>= fun r => runStage r.1 r.2) >>= fun _ => exit)) → Leaves s i)
    ?line ?tooMany ?word ?syntaxError ?redirect ?pipe ?skip hn argc
  case line => exact fun argc x _ hpiped => hpiped.elim
  case tooMany => exact fun argc w ks text hge hpiped => absurd hpiped.1 (Nat.not_lt.mpr hge)
  case word =>
    exact fun argc w ks t p _ ih hpiped s hlt hi => .step (.other hi (a := ()) trivial) (ih hpiped.2 _ hlt Procs.set_self)
  case syntaxError => exact fun argc c ks text hc hks hpiped => absurd hpiped (not_piped_error hc hks)
  case redirect =>
    intro argc c w ks t mode newfd p hc ih hpiped s hlt hi
    rw [piped_redirect hc] at hpiped
    refine .step (.other hi (a := (0 : Int)) trivial) (.step (.other Procs.set_self (a := (0 : Int)) trivial)
      (.step (.other Procs.set_self (a := (0 : Int)) trivial) ?_))
    exact ih hpiped _ hlt Procs.set_self
  case pipe => exact fun argc ks x p hx _ _ s hlt hi => leaves_forkPipe hx hlt hi
  case skip =>
    intro argc c ks p hc hpipe ih hpiped
    rw [piped_symbol hc] at hpiped
    exact ih (hpiped.resolve_left hpipe)

end Pipe

-- ---------------------------------------------------------------------------
-- The round of main
-- ---------------------------------------------------------------------------

section Round

variable {fuel s shell : Nat} {x : Shell} {line : Text}

/-- The shell forks, the child runs the first stage, and the shell waits for it. -/
theorem mainRound_eq (hs : s ≠ 0) (h : IsString x.lex.mem s line) (hn : line.length < fuel) :
    ∃ x' f, Parsing fuel (tokens line) x' ∧ mainRound fuel s x = (forkProc >>= f) ∧ f 0 = stageFrom fuel fuel 0 x' ∧
      ∀ child : Int, 0 < child → f child = waitProc child := by
  obtain ⟨x', hrun, hx'⟩ := Parsing.start hs h hn
  refine ⟨x', _, hx', rfl, ?_, fun child hpos => ?_⟩
  · show (runcmd fuel s x >>= fun _ => exit) = _
    rw [hrun]
    rfl
  · rw [if_neg (by omega), if_neg (by omega)]

theorem not_pipelineRight (hs : s ≠ 0) (h : IsString x.lex.mem s line) (hn : line.length < fuel)
    (hpiped : Piped 0 (tokens line)) : ¬ PipelineRight fuel s x shell := by
  obtain ⟨x', f, hx', hround, hchild, -⟩ := mainRound_eq hs h hn
  have hlen : (tokens line).length < fuel := Nat.lt_of_le_of_lt tokens_length hn
  intro hright
  have hfork : (Procs.start shell (mainRound fuel s x)).live shell = some (.code (forkProc >>= f)) := by
    rw [Procs.start_self, hround]
  have hlive : ((Procs.start shell (mainRound fuel s x)).make shell (.code (f (shell + 1 : Nat))) (.code (f 0))).live
      (shell + 1) = some (.code (stageFrom fuel fuel 0 x')) := by
    rw [← hchild]
    exact Procs.make_next
  obtain ⟨st, j, hreach, hended, hleft⟩ := leaves_parsecmd hx' hlen 0 hpiped _ (Nat.lt_succ_self _) hlive
  exact hleft.live ((hright st (.head (.fork hfork) hreach)).1 _ _ hleft.parent hended)

theorem pipelineRight (hshell : 0 < shell) (hs : s ≠ 0) (h : IsString x.lex.mem s line) (hn : line.length < fuel)
    (hpiped : ¬ Piped 0 (tokens line)) : PipelineRight fuel s x shell := by
  obtain ⟨x', f, hx', hround, hchild, hparent⟩ := mainRound_eq hs h hn
  have hlen : (tokens line).length < fuel := Nat.lt_of_le_of_lt tokens_length hn
  have hcareful : Careful [] (mainRound fuel s x) := by
    rw [hround]
    refine ⟨?_, fun child hpos => ?_⟩
    · show Careful [] (f 0)
      rw [hchild]
      exact careful_parsecmd hx' hlen 0 hpiped
    · show Careful [child] (f child)
      rw [hparent child hpos]
      show [child].filter (· ≠ child) = []
      rw [List.filter_cons_of_neg (by simp), List.filter_nil]
  exact fun st hreach => ⟨hcareful.orderly hshell hreach, hcareful.alone hshell hreach⟩

end Round

/-- The processes of a line end in order, and before the shell goes on, exactly if the first stage
forks at no pipe. -/
theorem mainRound_right_iff (fuel s : Nat) (x : Shell) (line : Text) (shell : Nat) (hshell : 0 < shell) (hs : s ≠ 0)
    (h : IsString x.lex.mem s line) (hn : line.length < fuel) :
    PipelineRight fuel s x shell ↔ ¬ Piped 0 (tokens line) :=
  ⟨fun hright hpiped => not_pipelineRight hs h hn hpiped hright, pipelineRight hshell hs h hn⟩

/-- The line "a". -/
theorem mainRound_right_word : PipelineRight 9 1 (shellWith [97#8]) 1 ↔ ¬ Piped 0 (tokens [97#8]) :=
  mainRound_right_iff 9 1 (shellWith [97#8]) [97#8] 1 (by decide) (by decide) (shellWith_string (by decide)) (by decide)

/-- The line "a|b": the left side can exit while the right side runs. -/
theorem mainRound_pipe : ¬ PipelineRight 9 1 (shellWith [97#8, 124#8, 98#8]) 1 := by
  have htokens : tokens [97#8, 124#8, 98#8] = .word [97#8] :: .symbol 124#8 :: tokens [98#8] := by
    rw [tokens, if_neg (by decide), if_neg (by decide), List.takeWhile_cons_of_neg (by decide),
      List.dropWhile_cons_of_neg (by decide), tokens, if_neg (by decide), if_pos (by decide)]
  refine not_pipelineRight (by decide) (shellWith_string (by decide)) (by decide) ?_
  rw [htokens]
  exact ⟨by decide, (piped_symbol (by decide)).mpr (Or.inl rfl)⟩

end Mos.User
