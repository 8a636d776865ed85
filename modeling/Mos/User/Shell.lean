import Mos.Lib.Procs
import Mos.User.FileIo
import Mos.User.Gettoken

/-!
# MOS on RISC-V — how the shell runs a command line

`parsecmd` of `user/sh.c` stores the words of a stage in `argv`, opens what the stage is
redirected to, and forks at a pipe: the child goes on with the right side. `runcmd` puts a
zero behind the words, spawns the program and waits. All requests of a process are made in
the monad `ShellM`; a store to `argv` is one of them. The child of a `fork` runs the same
program with the answer 0, in a copy of the memory.

Main results:

* `Parsing.line`, `Parsing.word`, `Parsing.redirect`, `Parsing.pipe` and the others — what
  `parsecmd` does at each kind of token;
* `Parsing.induct` — the induction that they make;
* `Parsing.start` — where `runcmd` starts it.
-/

namespace Mos.User

open Mos.Lib Mos.Base

-- ---------------------------------------------------------------------------
-- The source
-- ---------------------------------------------------------------------------

def MAXARGS : Nat := 128

/-- What the shell asks for, apart from processes. -/
inductive ShellReq where
  | store (i v : Nat)                          -- `argv[i] = v`
  | debugf (fmt : String) (args : List Int)
  | openFile (path mode : Nat)
  | dup (oldfd newfd : Int)
  | close (fd : Int)
  | closeAll
  | pipe

def ShellReq.Ans : ShellReq → Type
  | .store .. => Unit
  | .debugf .. => Unit
  | .openFile .. => Int
  | .dup .. => Int
  | .close _ => Int
  | .closeAll => Unit
  | .pipe => Int × Int × Int                   -- the result, `p[0]` and `p[1]`

/-- What `spawn` is called with. -/
structure Command where
  prog : Nat
  argv : Nat → Nat

abbrev ShellM := ProcM Command ShellReq.Ans

def ask (r : ShellReq) : ShellM r.Ans := Program.request (ProcReq.other r)

def forkProc : ShellM Int := Program.request ProcReq.fork

def spawnProc (c : Command) : ShellM Int := Program.request (ProcReq.spawn c)

def waitProc (envid : Int) : ShellM Unit := Program.request (ProcReq.wait envid)

def exit {α : Type} : ShellM α := .ask .exit Empty.elim

/-- The statics of `gettoken`, `argv`, and `rightpipe` of `runcmd`. -/
structure Shell where
  lex : Lexer
  argv : Nat → Nat
  rightpipe : Int

/-- `argv[i] = v`. -/
def Shell.setArg (x : Shell) (i v : Nat) : ShellM Shell := do
  let _ ← ask (.store i v)
  return { x with argv := Function.update x.argv i v }

/-- `gettoken(0, &t)`. -/
def token (fuel : Nat) (x : Shell) : ShellM (BitVec 8 × Nat × Shell) :=
  match gettoken fuel 0 0 x.lex with
  | none => .abort
  | some (c, t, lex) => .ret (c, t, { x with lex := lex })

/-- The file at `t` becomes the descriptor `newfd`. -/
def useFile (t mode : Nat) (newfd : Int) : ShellM Unit := do
  let fd ← ask (.openFile t mode)
  let _ ← ask (.dup fd newfd)
  let _ ← ask (.close fd)

/-- A redirection, behind the symbol. -/
def redirect (fuel : Nat) (text : String) (mode : Nat) (newfd : Int) (x : Shell) : ShellM Shell := do
  let (c, t, x) ← token fuel x
  if c ≠ chr 'w' then
    let _ ← ask (.debugf text [])
    exit
  else
    useFile t mode newfd
    return x

/-- The end `p` of a pipe becomes the descriptor `newfd`, and both ends are closed. -/
def usePipe (p other : Int) (newfd : Int) : ShellM Unit := do
  let _ ← ask (.dup p newfd)
  let _ ← ask (.close p)
  let _ ← ask (.close other)

/-- `parsecmd` at a pipe; `right` is what the child does. -/
def forkPipe (argc : Nat) (x : Shell) (right : ShellM (Nat × Shell)) : ShellM (Nat × Shell) := do
  let (r, p₀, p₁) ← ask .pipe
  if r < 0 then
    let _ ← ask (.debugf "Create pipe failed with %d\n" [r])
    return (0, x)
  else
    let r ← forkProc
    if r < 0 then
      let _ ← ask (.debugf "Fork failed with %d\n" [r])
      return (0, x)
    else if r = 0 then
      usePipe p₀ p₁ 0
      right
    else
      usePipe p₁ p₀ 1
      return (argc, x)

/-- The `switch` of `parsecmd`; `parse` goes on with so many words. -/
def parseSwitch (fuel : Nat) (parse : Nat → Shell → ShellM (Nat × Shell)) (argc : Nat) (c : BitVec 8) (t : Nat)
    (x : Shell) : ShellM (Nat × Shell) :=
  if c = 0 then return (argc, x)
  else if c = chr 'w' then
    if MAXARGS ≤ argc then do
      let _ ← ask (.debugf "too many arguments\n" [])
      exit
    else do
      let x ← x.setArg argc t
      parse (argc + 1) x
  else if c = chr '<' then do
    let x ← redirect fuel "syntax error: < not followed by word\n" O_RDONLY 0 x
    parse argc x
  else if c = chr '>' then do
    let x ← redirect fuel "syntax error: > not followed by word\n" O_WRONLY 1 x
    parse argc x
  else if c = chr '|' then forkPipe argc x (parse 0 x)
  else parse argc x

/-- `parsecmd(argv, &rightpipe)`, with `argc` words so far; `n` bounds the tokens. -/
def parsecmd (fuel : Nat) : Nat → Nat → Shell → ShellM (Nat × Shell)
  | 0, _, _ => .abort
  | n + 1, argc, x => do
    let (c, t, x) ← token fuel x
    parseSwitch fuel (parsecmd fuel n) argc c t x

/-- `runcmd` once `spawn` has returned. -/
def awaitChild (child : Int) (x : Shell) : ShellM Unit :=
  if 0 ≤ child then waitProc child else do
    let _ ← ask (.debugf "spawn %s: %d\n" [x.argv 0, child])

/-- The end of `runcmd`. -/
def awaitRight (x : Shell) : ShellM Unit :=
  if x.rightpipe ≠ 0 then do
    waitProc x.rightpipe
    exit
  else exit

/-- `runcmd`, behind `parsecmd`. -/
def runStage (argc : Nat) (x : Shell) : ShellM Unit :=
  if argc = 0 then return () else do
    let x ← x.setArg argc 0
    let child ← spawnProc ⟨x.argv 0, x.argv⟩
    let _ ← ask .closeAll
    awaitChild child x
    awaitRight x

/-- `runcmd(s)`. -/
def runcmd (fuel s : Nat) (x : Shell) : ShellM Unit :=
  match gettoken fuel s 0 x.lex with
  | none => .abort
  | some (_, _, lex) => do
    let (argc, x) ← parsecmd fuel fuel 0 ⟨lex, x.argv, 0⟩
    runStage argc x

/-- A round of `main`, once the line `s` has been read. -/
def mainRound (fuel s : Nat) (x : Shell) : ShellM Unit := do
  let r ← forkProc
  if r < 0 then .abort                          -- `user_panic`
  else if r = 0 then
    runcmd fuel s x
    exit
  else waitProc r

/-- A symbol of a redirection. -/
def isRedirect (c : BitVec 8) : Prop := c = chr '<' ∨ c = chr '>'

instance (c : BitVec 8) : Decidable (isRedirect c) := inferInstanceAs (Decidable (_ ∨ _))

-- ---------------------------------------------------------------------------
-- What parsecmd does at a token
-- ---------------------------------------------------------------------------

section Parse

variable {fuel n argc : Nat} {x : Shell} {k : Token} {ks : List Token} {c : BitVec 8} {w : Text}

theorem tokens_symbol {f : Text} (h : Token.symbol c ∈ tokens f) : isSymbol c = true := by
  induction f using tokens.induct with
  | case1 =>
    rw [tokens] at h
    exact absurd h List.not_mem_nil
  | case2 d f hwhite ih =>
    rw [tokens, if_pos hwhite] at h
    exact ih h
  | case3 d f hwhite hsymbol ih =>
    rw [tokens, if_neg hwhite, if_pos hsymbol] at h
    rcases List.mem_cons.mp h with heq | h
    · rwa [Token.symbol.inj heq]
    · exact ih h
  | case4 d f hwhite hsymbol ih =>
    rw [tokens, if_neg hwhite, if_neg hsymbol] at h
    rcases List.mem_cons.mp h with heq | h
    · cases heq
    · exact ih h

theorem tokens_length {f : Text} : (tokens f).length ≤ f.length := by
  induction f using tokens.induct with
  | case1 =>
    rw [tokens]
    exact Nat.le_refl 0
  | case2 d f hwhite ih =>
    rw [tokens, if_pos hwhite]
    exact Nat.le_succ_of_le ih
  | case3 d f hwhite hsymbol ih =>
    rw [tokens, if_neg hwhite, if_pos hsymbol]
    exact Nat.succ_le_succ ih
  | case4 d f hwhite hsymbol ih =>
    rw [tokens, if_neg hwhite, if_neg hsymbol]
    exact Nat.succ_le_succ (ih.trans (List.dropWhile_sublist _).length_le)

/-- While `parsecmd` runs: the tokens `ks` are still to come, and `*rightpipe` is what it was. -/
structure Parsing (fuel : Nat) (ks : List Token) (x : Shell) : Prop where
  ahead : x.lex.ahead.Ahead fuel ks
  symbols : ∀ c, Token.symbol c ∈ ks → isSymbol c = true
  rightpipe : x.rightpipe = 0

/-- What `gettoken` returns next. -/
def kindOf (ks : List Token) : BitVec 8 := (ks.head?.map Token.kind).getD 0

theorem Parsing.token (h : Parsing fuel ks x) :
    ∃ t x', token fuel x = .ret (kindOf ks, t, x') ∧ Parsing fuel ks.tail x' := by
  have hret : ∀ {c t lex}, gettoken fuel 0 0 x.lex = some (c, t, lex) →
      Mos.User.token fuel x = .ret (c, t, { x with lex := lex }) := by
    intro c t lex hlex
    unfold Mos.User.token
    rw [hlex]
  cases ks with
  | nil =>
    obtain ⟨lex, hcall, hahead, -⟩ := gettoken_done (p := 0) h.ahead
    exact ⟨_, _, hret hcall, hahead, h.symbols, h.rightpipe⟩
  | cons k ks =>
    obtain ⟨lex, hcall, hahead, -⟩ := gettoken_step (p := 0) h.ahead
    exact ⟨_, _, hret hcall, hahead, fun c hc => h.symbols c (List.mem_cons_of_mem k hc), h.rightpipe⟩

theorem Parsing.switch (h : Parsing fuel ks x) (n argc : Nat) :
    ∃ t x', parsecmd fuel (n + 1) argc x = parseSwitch fuel (parsecmd fuel n) argc (kindOf ks) t x' ∧
      Parsing fuel ks.tail x' := by
  obtain ⟨t, x', htoken, hx'⟩ := h.token
  refine ⟨t, x', ?_, hx'⟩
  rw [parsecmd, htoken]
  rfl

theorem symbol_ne (h : isSymbol c = true) : c ≠ 0 ∧ c ≠ chr 'w' := by
  constructor
  · rintro rfl
    exact absurd h (by decide)
  · rintro rfl
    exact absurd h (by decide)

theorem exit_bind {α β : Type} (f : α → ShellM β) : (exit >>= f) = exit :=
  congrArg (Program.ask ProcReq.exit) (funext fun e => e.elim)

namespace Parsing

/-- At the end of the line. -/
theorem line (h : Parsing fuel [] x) (n argc : Nat) :
    ∃ x', parsecmd fuel (n + 1) argc x = .ret (argc, x') ∧ x'.rightpipe = 0 := by
  obtain ⟨t, x', hparse, hx'⟩ := h.switch n argc
  exact ⟨x', hparse.trans (if_pos rfl), hx'.rightpipe⟩

theorem tooMany (h : Parsing fuel (.word w :: ks) x) (n : Nat) (hargc : MAXARGS ≤ argc) :
    ∃ text, parsecmd fuel (n + 1) argc x = ask (.debugf text []) >>= fun _ => exit := by
  obtain ⟨t, x', hparse, -⟩ := h.switch n argc
  refine ⟨"too many arguments\n", hparse.trans ?_⟩
  exact (if_neg (show chr 'w' ≠ 0 by decide)).trans ((if_pos rfl).trans (if_pos hargc))

theorem word (h : Parsing fuel (.word w :: ks) x) (n : Nat) (hargc : argc < MAXARGS) :
    ∃ t x', parsecmd fuel (n + 1) argc x = (ask (.store argc t) >>= fun _ => parsecmd fuel n (argc + 1) x') ∧
      Parsing fuel ks x' := by
  obtain ⟨t, x', hparse, hx'⟩ := h.switch n argc
  refine ⟨t, { x' with argv := Function.update x'.argv argc t }, hparse.trans ?_, hx'.ahead, hx'.symbols, hx'.rightpipe⟩
  exact (if_neg (show chr 'w' ≠ 0 by decide)).trans ((if_pos rfl).trans (if_neg (Nat.not_le.mpr hargc)))

/-- Only a word returns 'w'. -/
theorem wordNext (h : Parsing fuel (k :: ks) x) (hks : kindOf ks = chr 'w') : ∃ w ks', ks = .word w :: ks' := by
  cases ks with
  | nil => exact absurd hks (by decide)
  | cons k' ks =>
    cases k' with
    | word w => exact ⟨w, ks, rfl⟩
    | symbol d => exact absurd hks (symbol_ne (h.symbols d (List.mem_cons_of_mem _ List.mem_cons_self))).2

/-- A redirection comes down to `redirect`. -/
theorem redirection (h : Parsing fuel (.symbol c :: ks) x) (n argc : Nat) (hc : isRedirect c) :
    ∃ text mode newfd x', parsecmd fuel (n + 1) argc x =
        (Mos.User.redirect fuel text mode newfd x' >>= fun x => parsecmd fuel n argc x) ∧ Parsing fuel ks x' := by
  obtain ⟨t, x', hparse, hx'⟩ := h.switch n argc
  rcases hc with rfl | rfl
  · refine ⟨"syntax error: < not followed by word\n", O_RDONLY, 0, x', hparse.trans ?_, hx'⟩
    exact (if_neg (show chr '<' ≠ 0 by decide)).trans ((if_neg (show chr '<' ≠ chr 'w' by decide)).trans (if_pos rfl))
  · refine ⟨"syntax error: > not followed by word\n", O_WRONLY, 1, x', hparse.trans ?_, hx'⟩
    exact (if_neg (show chr '>' ≠ 0 by decide)).trans ((if_neg (show chr '>' ≠ chr 'w' by decide)).trans
      ((if_neg (show chr '>' ≠ chr '<' by decide)).trans (if_pos rfl)))

theorem redirect (h : Parsing fuel (.symbol c :: .word w :: ks) x) (n argc : Nat) (hc : isRedirect c) :
    ∃ t mode newfd x', parsecmd fuel (n + 1) argc x = (useFile t mode newfd >>= fun _ => parsecmd fuel n argc x') ∧
      Parsing fuel ks x' := by
  obtain ⟨text, mode, newfd, x₁, hparse, hx₁⟩ := h.redirection n argc hc
  obtain ⟨t, x', htoken, hx'⟩ := hx₁.token
  refine ⟨t, mode, newfd, x', ?_, hx'⟩
  rw [hparse, Mos.User.redirect, htoken]
  rfl

theorem syntaxError (h : Parsing fuel (.symbol c :: ks) x) (n argc : Nat) (hc : isRedirect c)
    (hks : kindOf ks ≠ chr 'w') :
    ∃ text, parsecmd fuel (n + 1) argc x = ask (.debugf text []) >>= fun _ => exit := by
  obtain ⟨text, mode, newfd, x₁, hparse, hx₁⟩ := h.redirection n argc hc
  obtain ⟨t, x', htoken, hx'⟩ := hx₁.token
  refine ⟨text, ?_⟩
  rw [hparse, Mos.User.redirect, htoken]
  show ((if kindOf ks ≠ chr 'w' then _ else _ : ShellM Shell) >>= _) = _
  rw [if_pos hks]
  exact congrArg (fun f => Program.ask (ProcReq.other (ShellReq.debugf text [])) f) (funext fun _ => exit_bind _)

theorem pipe (h : Parsing fuel (.symbol (chr '|') :: ks) x) (n argc : Nat) :
    ∃ x', parsecmd fuel (n + 1) argc x = forkPipe argc x' (parsecmd fuel n 0 x') ∧ Parsing fuel ks x' := by
  obtain ⟨t, x', hparse, hx'⟩ := h.switch n argc
  refine ⟨x', hparse.trans ?_, hx'⟩
  exact (if_neg (show chr '|' ≠ 0 by decide)).trans ((if_neg (show chr '|' ≠ chr 'w' by decide)).trans
    ((if_neg (show chr '|' ≠ chr '<' by decide)).trans ((if_neg (show chr '|' ≠ chr '>' by decide)).trans (if_pos rfl))))

/-- A symbol the shell does not know. -/
theorem skip (h : Parsing fuel (.symbol c :: ks) x) (n argc : Nat) (hc : ¬ isRedirect c) (hpipe : c ≠ chr '|') :
    ∃ x', parsecmd fuel (n + 1) argc x = parsecmd fuel n argc x' ∧ Parsing fuel ks x' := by
  obtain ⟨t, x', hparse, hx'⟩ := h.switch n argc
  obtain ⟨hzero, hw⟩ := symbol_ne (h.symbols c List.mem_cons_self)
  refine ⟨x', hparse.trans ?_, hx'⟩
  exact (if_neg (show c ≠ 0 from hzero)).trans ((if_neg (show c ≠ chr 'w' from hw)).trans
    ((if_neg (show c ≠ chr '<' from fun h => hc (Or.inl h))).trans
      ((if_neg (show c ≠ chr '>' from fun h => hc (Or.inr h))).trans (if_neg hpipe))))

/-- **Induction along the tokens.** What holds of the program that `parsecmd` is at the end of
the line, and is passed on by each kind of token, holds of `parsecmd`. -/
theorem induct {motive : Nat → List Token → ShellM (Nat × Shell) → Prop}
    (line : ∀ argc x, x.rightpipe = 0 → motive argc [] (.ret (argc, x)))
    (tooMany : ∀ argc w ks text, MAXARGS ≤ argc →
      motive argc (.word w :: ks) (ask (.debugf text []) >>= fun _ => exit))
    (word : ∀ argc w ks t p, argc < MAXARGS → motive (argc + 1) ks p →
      motive argc (.word w :: ks) (ask (.store argc t) >>= fun _ => p))
    (syntaxError : ∀ argc c ks text, isRedirect c → kindOf ks ≠ chr 'w' →
      motive argc (.symbol c :: ks) (ask (.debugf text []) >>= fun _ => exit))
    (redirect : ∀ argc c w ks t mode newfd p, isRedirect c → motive argc ks p →
      motive argc (.symbol c :: .word w :: ks) (useFile t mode newfd >>= fun _ => p))
    (pipe : ∀ argc ks x p, x.rightpipe = 0 → motive 0 ks p → motive argc (.symbol (chr '|') :: ks) (forkPipe argc x p))
    (skip : ∀ argc c ks p, ¬ isRedirect c → c ≠ chr '|' → motive argc ks p → motive argc (.symbol c :: ks) p)
    (h : Parsing fuel ks x) (hn : ks.length < n) (argc : Nat) : motive argc ks (parsecmd fuel n argc x) := by
  induction n generalizing ks argc x with
  | zero => exact absurd hn (Nat.not_lt_zero _)
  | succ n ih =>
    cases ks with
    | nil =>
      obtain ⟨x', hparse, hx'⟩ := h.line n argc
      rw [hparse]
      exact line argc x' hx'
    | cons k ks =>
      have hn' : ks.length < n := Nat.lt_of_succ_lt_succ hn
      cases k with
      | word w =>
        rcases Nat.lt_or_ge argc MAXARGS with hlt | hge
        · obtain ⟨t, x', hparse, hx'⟩ := h.word n hlt
          rw [hparse]
          exact word argc w ks t _ hlt (ih hx' hn' (argc + 1))
        · obtain ⟨text, hparse⟩ := h.tooMany n hge
          rw [hparse]
          exact tooMany argc w ks text hge
      | symbol c =>
        by_cases hc : isRedirect c
        · by_cases hks : kindOf ks = chr 'w'
          · obtain ⟨w, ks, rfl⟩ := h.wordNext hks
            obtain ⟨t, mode, newfd, x', hparse, hx'⟩ := h.redirect n argc hc
            rw [hparse]
            exact redirect argc c w ks t mode newfd _ hc (ih hx' (Nat.lt_of_succ_lt hn') argc)
          · obtain ⟨text, hparse⟩ := h.syntaxError n argc hc hks
            rw [hparse]
            exact syntaxError argc c ks text hc hks
        · by_cases hpipe : c = chr '|'
          · subst hpipe
            obtain ⟨x', hparse, hx'⟩ := h.pipe n argc
            rw [hparse]
            exact pipe argc ks x' _ hx'.rightpipe (ih hx' hn' 0)
          · obtain ⟨x', hparse, hx'⟩ := h.skip n argc hc hpipe
            rw [hparse]
            exact skip argc c ks _ hc hpipe (ih hx' hn' argc)

/-- `runcmd` starts with the tokens of the line. -/
theorem start {s : Nat} {line : Text} (hs : s ≠ 0) (h : IsString x.lex.mem s line) (hn : line.length < fuel) :
    ∃ x', runcmd fuel s x = (parsecmd fuel fuel 0 x' >>= fun r => runStage r.1 r.2) ∧ Parsing fuel (tokens line) x' := by
  obtain ⟨lex, hcall, hahead⟩ := gettoken_start (p := 0) hs h hn
  refine ⟨⟨lex, x.argv, 0⟩, ?_, hahead, fun c => tokens_symbol, rfl⟩
  unfold runcmd
  rw [hcall]

end Parsing

end Parse

/-- The shell with the line at address 1. -/
def shellWith (line : Text) : Shell := ⟨⟨storeBytes (fun _ => 0) 1 line, 0, 0, 0, 0⟩, fun _ => 0, 0⟩

theorem shellWith_string {line : Text} (h : ∀ c ∈ line, c ≠ 0) : IsString (shellWith line).lex.mem 1 line := by
  refine CString.of_bytes h (fun k hk => congrArg some ?_) (congrArg some ?_)
  · exact storeBytes_byte (fun _ => 0) 1 hk
  · exact storeBytes_of_notMem (m := fun _ => 0) (Or.inr (Nat.le_refl _))

end Mos.User
