import Mos.User.Shell

/-!
# MOS on RISC-V — the bounds of argv

`parsecmd` tests that there is room for a word, and `runcmd` puts a zero behind the last one
without a test: a stage with exactly `MAXARGS` words has no room for it.

Main results:

* `sends_parsecmd` — from any token on, all stores are in bounds exactly if every stage that
  is reached leaves room;
* `runcmd_argv_iff` — the same for a whole line.
-/

namespace Mos.User

open Mos.Lib Mos.Base

/-- A request that stores to `argv` in bounds, or does not store to it. -/
def InArgv (req : ProcReq Command ShellReq) : Prop := ∀ i v, req = .other (.store i v) → i < MAXARGS

/-- Whatever the answers, `runcmd` and the processes it forks store in bounds. -/
def ArgvSafe (fuel s : Nat) (x : Shell) : Prop := (runcmd fuel s x).Sends InArgv

/-- Each stage that is reached leaves room behind its words; `argc` of them have been read. -/
def ArgsFit : Nat → List Token → Prop
  | argc, [] => argc < MAXARGS
  | argc, .word _ :: ks => MAXARGS ≤ argc ∨ ArgsFit (argc + 1) ks
  | argc, .symbol c :: ks =>
    if isRedirect c then
      match ks with
      | .word _ :: ks => ArgsFit argc ks
      | _ => True
    else if c = chr '|' then argc < MAXARGS ∧ ArgsFit 0 ks
    else ArgsFit argc ks

section Sends

variable {fuel n argc : Nat} {x : Shell} {ks : List Token} {r : ShellReq} {c : BitVec 8} {w : Text}

theorem argsFit_redirect (hc : isRedirect c) : ArgsFit argc (.symbol c :: .word w :: ks) ↔ ArgsFit argc ks := by
  rw [ArgsFit, if_pos hc]

theorem argsFit_error (hc : isRedirect c) (hks : kindOf ks ≠ chr 'w') : ArgsFit argc (.symbol c :: ks) := by
  rw [ArgsFit.eq_def]
  refine (Iff.of_eq (if_pos hc)).mpr ?_
  cases ks with
  | nil => trivial
  | cons k ks =>
    cases k with
    | word w => exact absurd rfl hks
    | symbol d => trivial

theorem argsFit_pipe : ArgsFit argc (.symbol (chr '|') :: ks) ↔ argc < MAXARGS ∧ ArgsFit 0 ks := by
  rw [ArgsFit.eq_def]
  exact Iff.of_eq ((if_neg (by decide)).trans (if_pos rfl))

theorem argsFit_skip (hc : ¬ isRedirect c) (hpipe : c ≠ chr '|') :
    ArgsFit argc (.symbol c :: ks) ↔ ArgsFit argc ks := by
  rw [ArgsFit.eq_def]
  exact Iff.of_eq ((if_neg hc).trans (if_neg hpipe))

theorem inArgv_other (h : ∀ i v, r ≠ .store i v) : InArgv (.other r) :=
  fun i v hr => absurd (ProcReq.other.inj hr) (h i v)

theorem sends_ask {α : Type} {f : r.Ans → ShellM α} :
    (ask r >>= f).Sends InArgv ↔ InArgv (.other r) ∧ ∀ a, (f a).Sends InArgv := Iff.rfl

theorem inArgv_wait (c : Int) : InArgv (.wait c) := fun i v h => by cases h

theorem sends_exit {α : Type} : (exit : ShellM α).Sends InArgv := by
  refine ⟨fun i v h => ?_, fun e => e.elim⟩
  cases h

theorem sends_awaitChild (child : Int) : (awaitChild child x).Sends InArgv := by
  unfold awaitChild
  split_ifs
  · exact ⟨inArgv_wait child, fun _ => trivial⟩
  · exact ⟨inArgv_other fun i v h => (by cases h), fun _ => trivial⟩

theorem sends_awaitRight : (awaitRight x).Sends InArgv := by
  unfold awaitRight
  split_ifs
  · exact ⟨inArgv_wait x.rightpipe, fun _ => sends_exit⟩
  · exact sends_exit

/-- The zero behind the words. -/
theorem sends_runStage : (runStage argc x).Sends InArgv ↔ argc < MAXARGS := by
  unfold runStage
  by_cases hargc : argc = 0
  · subst hargc
    exact iff_of_true trivial (by decide)
  · rw [if_neg hargc]
    refine ⟨fun h => h.1 argc 0 rfl, fun hlt => ⟨?_, fun _ => ⟨?_, fun child => ⟨?_, fun _ => ?_⟩⟩⟩⟩
    · intro i v h
      cases h
      exact hlt
    · intro i v h
      cases h
    · exact inArgv_other fun i v h => (by cases h)
    · show Program.Sends InArgv (awaitChild child _ >>= fun _ => awaitRight _)
      exact Program.Sends.bind (sends_awaitChild child) fun _ => sends_awaitRight

theorem sends_usePipe (p other newfd : Int) : (usePipe p other newfd).Sends InArgv := by
  refine ⟨inArgv_other fun i v h => ?_, fun _ => ⟨inArgv_other fun i v h => ?_, fun _ => ⟨inArgv_other fun i v h => ?_,
    fun _ => trivial⟩⟩⟩
  · cases h
  · cases h
  · cases h

/-- A message, and the process exits. -/
theorem sends_message {α β : Type} (text : String) (f : α → ShellM β) :
    ((ask (.debugf text []) >>= fun _ => (exit : ShellM α)) >>= f).Sends InArgv := by
  refine ⟨inArgv_other fun i v h => ?_, fun _ => ?_⟩
  · cases h
  · show (exit >>= f).Sends InArgv
    rw [exit_bind]
    exact sends_exit

theorem sends_useFile (t mode : Nat) (newfd : Int) : (useFile t mode newfd).Sends InArgv := by
  refine ⟨inArgv_other fun i v h => ?_, fun _ => ⟨inArgv_other fun i v h => ?_, fun _ => ⟨inArgv_other fun i v h => ?_,
    fun _ => trivial⟩⟩⟩
  · cases h
  · cases h
  · cases h

/-- At a pipe, both sides are read on. -/
theorem sends_forkPipe {p : ShellM (Nat × Shell)} : (forkPipe argc x p >>= fun r => runStage r.1 r.2).Sends InArgv ↔
    argc < MAXARGS ∧ (p >>= fun r => runStage r.1 r.2).Sends InArgv := by
  constructor
  · intro hs
    have hfork := hs.2 ((0 : Int), (0 : Int), (0 : Int))
    have hchild := hfork.2 (0 : Int)
    have hparent := hfork.2 (1 : Int)
    exact ⟨sends_runStage.mp (((hparent.2 (0 : Int)).2 (0 : Int)).2 (0 : Int)), ((hchild.2 (0 : Int)).2 (0 : Int)).2 (0 : Int)⟩
  · intro hs
    refine ⟨inArgv_other fun i v h => (by cases h), fun ends => ?_⟩
    obtain ⟨r, p₀, p₁⟩ := ends
    show Program.Sends InArgv ((if r < 0 then _ else _ : ShellM (Nat × Shell)) >>= fun r => runStage r.1 r.2)
    split_ifs with hr
    · exact ⟨inArgv_other fun i v h => (by cases h), fun _ => trivial⟩
    · refine ⟨fun i v h => (by cases h), fun (r : Int) => ?_⟩
      show Program.Sends InArgv ((if r < 0 then _ else _ : ShellM (Nat × Shell)) >>= fun r => runStage r.1 r.2)
      split_ifs
      · exact ⟨inArgv_other fun i v h => (by cases h), fun _ => trivial⟩
      · show Program.Sends InArgv (usePipe p₀ p₁ 0 >>= fun _ => p >>= fun r => runStage r.1 r.2)
        exact Program.Sends.bind (sends_usePipe p₀ p₁ 0) fun _ => hs.2
      · show Program.Sends InArgv (usePipe p₁ p₀ 1 >>= fun _ => runStage argc x)
        exact Program.Sends.bind (sends_usePipe p₁ p₀ 1) fun _ => sends_runStage.mpr hs.1

/-- From any token on. -/
theorem sends_parsecmd (h : Parsing fuel ks x) (hn : ks.length < n) (argc : Nat) :
    (parsecmd fuel n argc x >>= fun r => runStage r.1 r.2).Sends InArgv ↔ ArgsFit argc ks := by
  refine h.induct (motive := fun argc ks p => (p >>= fun r => runStage r.1 r.2).Sends InArgv ↔ ArgsFit argc ks)
    ?line ?tooMany ?word ?syntaxError ?redirect ?pipe ?skip hn argc
  case line => exact fun argc x _ => sends_runStage
  case tooMany => exact fun argc w ks text hge => iff_of_true (sends_message text _) (Or.inl hge)
  case word =>
    intro argc w ks t p hlt ih
    have hge : ¬ MAXARGS ≤ argc := Nat.not_le.mpr hlt
    refine ⟨fun hs => Or.inr (ih.mp (hs.2 ())), fun hfit => ⟨?_, fun _ => ih.mpr (hfit.resolve_left hge)⟩⟩
    intro i v hreq
    cases hreq
    exact hlt
  case syntaxError => exact fun argc c ks text hc hks => iff_of_true (sends_message text _) (argsFit_error hc hks)
  case redirect =>
    intro argc c w ks t mode newfd p hc ih
    rw [argsFit_redirect hc, ← ih]
    refine ⟨fun hs => ((hs.2 (0 : Int)).2 (0 : Int)).2 (0 : Int), fun hs => ?_⟩
    show Program.Sends InArgv (useFile t mode newfd >>= fun _ => p >>= fun r => runStage r.1 r.2)
    exact Program.Sends.bind (sends_useFile t mode newfd) fun _ => hs
  case pipe =>
    intro argc ks x p _ ih
    rw [sends_forkPipe, ih, argsFit_pipe]
  case skip =>
    intro argc c ks p hc hpipe ih
    rw [ih, argsFit_skip hc hpipe]

end Sends

/-- All stores to `argv` are in bounds exactly if every stage that is reached leaves room for the
zero behind its words. -/
theorem runcmd_argv_iff (fuel s : Nat) (x : Shell) (line : Text) (hs : s ≠ 0) (h : IsString x.lex.mem s line)
    (hn : line.length < fuel) : ArgvSafe fuel s x ↔ ArgsFit 0 (tokens line) := by
  obtain ⟨x', hrun, hx'⟩ := Parsing.start hs h hn
  unfold ArgvSafe
  rw [hrun]
  exact sends_parsecmd hx' (Nat.lt_of_le_of_lt tokens_length hn) 0

/-- The line "a". -/
theorem runcmd_argv_iff_word : ArgvSafe 9 1 (shellWith [97#8]) ↔ ArgsFit 0 (tokens [97#8]) :=
  runcmd_argv_iff 9 1 (shellWith [97#8]) [97#8] (by decide) (shellWith_string (by decide)) (by decide)

/-- So many times the word "a" and a blank. -/
def words : Nat → Text
  | 0 => []
  | n + 1 => 97#8 :: 32#8 :: words n

theorem words_length (n : Nat) : (words n).length = 2 * n := by
  induction n with
  | zero => rfl
  | succ n ih =>
    rw [words, List.length_cons, List.length_cons, ih]
    omega

theorem words_nonzero (n : Nat) : ∀ c ∈ words n, c ≠ 0 := by
  induction n with
  | zero => exact fun c hc => absurd hc List.not_mem_nil
  | succ n ih =>
    intro c hc
    rcases List.mem_cons.mp hc with rfl | hc
    · decide
    · rcases List.mem_cons.mp hc with rfl | hc
      · decide
      · exact ih c hc

theorem tokens_words (n : Nat) : tokens (words n) = List.replicate n (.word [97#8]) := by
  induction n with
  | zero =>
    rw [words, tokens]
    rfl
  | succ n ih =>
    have hblank : tokens (32#8 :: words n) = tokens (words n) := by
      rw [tokens, if_pos (by decide)]
    rw [words, tokens, if_neg (by decide), if_neg (by decide), List.takeWhile_cons_of_neg (by decide),
      List.dropWhile_cons_of_neg (by decide), hblank, ih]
    rfl

theorem not_argsFit_words {n argc : Nat} (h : argc + n = MAXARGS) :
    ¬ ArgsFit argc (List.replicate n (.word [97#8])) := by
  induction n generalizing argc with
  | zero => exact Nat.not_lt.mpr (Nat.le_of_eq h.symm)
  | succ n ih =>
    have hlt : ¬ MAXARGS ≤ argc := by omega
    rw [List.replicate_succ, ArgsFit, or_iff_right hlt]
    exact ih (by omega)

theorem not_argvSafe_words {fuel : Nat} (hn : 2 * MAXARGS < fuel) : ¬ ArgvSafe fuel 1 (shellWith (words MAXARGS)) := by
  have hlen : (words MAXARGS).length < fuel := (words_length MAXARGS).trans_lt hn
  obtain ⟨x', hrun, hx'⟩ := Parsing.start Nat.one_ne_zero (shellWith_string (words_nonzero MAXARGS)) hlen
  unfold ArgvSafe
  rw [hrun, sends_parsecmd hx' (Nat.lt_of_le_of_lt tokens_length hlen) 0, tokens_words]
  exact not_argsFit_words (Nat.zero_add _)

/-- 128 words: the zero is stored at `argv[128]`. -/
theorem runcmd_words : (words 128).length ≤ 1023 ∧ ¬ ArgvSafe 257 1 (shellWith (words 128)) :=
  ⟨(words_length 128).trans_le (by decide), not_argvSafe_words (by decide)⟩

end Mos.User
