import Mos.Base.Print
import Mos.Lib.ByteMem

/-!
# MOS on RISC-V — the shell's tokens

`gettoken` of `user/sh.c` looks one token ahead: a call returns the token that the call
before has found, and looks for the next one. White space and symbols are overwritten with
zero bytes on the way, so a word becomes a string only when the token behind it is looked
for.

Main results:

* `scanToken_run` — what one look for a token finds, and which bytes it leaves alone;
* `gettokens_yields` — the calls give the tokens of the line one after the other and 0 for
  ever, and a word is a string from the call on that returns it.
-/

namespace Mos.User

open Mos.Lib Mos.Base

-- ---------------------------------------------------------------------------
-- The source
-- ---------------------------------------------------------------------------

def WHITESPACE : Text := [chr ' ', chr '\t', chr '\r', chr '\n']

def SYMBOLS : Text := ['<', '|', '>', '&', ';', '(', ')'].map chr

/-- `strchr(s, c)` on a literal: the rest of it, from the character on. -/
def strchr (c : BitVec 8) : Text → Option Text
  | [] => none
  | x :: s => if x = c then some (x :: s) else strchr c s

/-- The line, and the place in it. -/
structure Scanner where
  mem : ByteMem
  s : Nat

/-- `*s++ = 0`. -/
def clearByte (x : Scanner) : Scanner := ⟨Function.update x.mem x.s 0, x.s + 1⟩

def nextByte (x : Scanner) : Scanner := { x with s := x.s + 1 }

/-- `strchr(WHITESPACE, *s)`. -/
def Scanner.AtWhite (x : Scanner) : Prop := (strchr (x.mem x.s) WHITESPACE).isSome

/-- `*s && !strchr(WHITESPACE SYMBOLS, *s)`. -/
def Scanner.AtWord (x : Scanner) : Prop := x.mem x.s ≠ 0 ∧ ¬ (strchr (x.mem x.s) (WHITESPACE ++ SYMBOLS)).isSome

instance : DecidablePred Scanner.AtWhite := fun _ => inferInstanceAs (Decidable (_ = true))

instance : DecidablePred Scanner.AtWord := fun _ => inferInstanceAs (Decidable (_ ∧ _))

/-- What `_gettoken` returns, with `*p1`, `*p2` and the memory. -/
structure Found where
  c : BitVec 8
  p1 : Nat
  p2 : Nat
  mem : ByteMem

/-- `_gettoken(s, &p1, &p2)`, if no loop takes more than `fuel` tests. -/
def scanToken (fuel : Nat) (m : ByteMem) (s : Nat) : Option Found :=
  if s = 0 then some ⟨0, 0, 0, m⟩ else do
    let x ← loop Scanner.AtWhite (fun x => some (clearByte x)) fuel ⟨m, s⟩
    if x.mem x.s = 0 then return ⟨0, 0, 0, x.mem⟩
    if (strchr (x.mem x.s) SYMBOLS).isSome then
      let y := clearByte x
      return ⟨x.mem x.s, x.s, y.s, y.mem⟩
    let y ← loop Scanner.AtWord (fun y => some (nextByte y)) fuel x
    return ⟨chr 'w', x.s, y.s, y.mem⟩

/-- The memory, and the static variables of `gettoken`. -/
structure Lexer where
  mem : ByteMem
  c : BitVec 8
  nc : BitVec 8
  np1 : Nat
  np2 : Nat

def Lexer.found (x : Lexer) (f : Found) : Lexer := { x with mem := f.mem, nc := f.c, np1 := f.p1, np2 := f.p2 }

/-- `gettoken(s, &p1)`: the result, `*p1`, and what is left. -/
def gettoken (fuel s p1 : Nat) (x : Lexer) : Option (BitVec 8 × Nat × Lexer) :=
  if s ≠ 0 then do
    let f ← scanToken fuel x.mem s
    return (0, p1, x.found f)
  else do
    let x := { x with c := x.nc }
    let f ← scanToken fuel x.mem x.np2
    return (x.c, x.np1, x.found f)

-- ---------------------------------------------------------------------------
-- The tokens of a line
-- ---------------------------------------------------------------------------

def isWhite (c : BitVec 8) : Bool := WHITESPACE.contains c

def isSymbol (c : BitVec 8) : Bool := SYMBOLS.contains c

/-- A character that words are made of. -/
def isWordChar (c : BitVec 8) : Bool := !isWhite c && !isSymbol c

inductive Token where
  | symbol (c : BitVec 8)
  | word (w : Text)
  deriving DecidableEq, Repr

/-- What `gettoken` returns for it. -/
def Token.kind : Token → BitVec 8
  | symbol c => c
  | word _ => chr 'w'

/-- White space is skipped, a symbol is a token of its own, and a word goes as far as it can. -/
def tokens : Text → List Token
  | [] => []
  | c :: f =>
    if isWhite c then tokens f
    else if isSymbol c then .symbol c :: tokens f
    else .word (c :: f.takeWhile isWordChar) :: tokens (f.dropWhile isWordChar)
termination_by f => f.length
decreasing_by
  · exact Nat.lt_succ_self _
  · exact Nat.lt_succ_self _
  · exact Nat.lt_succ_of_le (List.dropWhile_sublist _).length_le

/-- What a call returns, and the memory then. -/
structure Returned where
  c : BitVec 8
  t : Nat
  mem : ByteMem

/-- `n` calls of `gettoken(0, &t)`. -/
def gettokens (fuel : Nat) : Nat → Lexer → Option (List Returned)
  | 0, _ => some []
  | n + 1, x => do
    let (c, t, x) ← gettoken fuel 0 0 x
    let rs ← gettokens fuel n x
    return ⟨c, t, x.mem⟩ :: rs

/-- The string `w` at `t`, with its zero byte. -/
def IsString (m : ByteMem) (t : Nat) (w : Text) : Prop := CString (fun a => some (m a)) t w

/-- The calls return the tokens and then 0. A word is at `t` after its own call and after all
calls that follow. -/
def Yields : List Token → List Returned → Prop
  | _, [] => True
  | [], r :: rs => r.c = 0 ∧ Yields [] rs
  | k :: ks, r :: rs => r.c = k.kind ∧ (∀ w, k = .word w → ∀ r' ∈ r :: rs, IsString r'.mem r.t w) ∧ Yields ks rs

-- ---------------------------------------------------------------------------
-- One look
-- ---------------------------------------------------------------------------

section Look

variable {n s : Nat} {m : ByteMem} {c : BitVec 8} {f : Text}

theorem strchr_isSome {l : Text} : (strchr c l).isSome = l.contains c := by
  induction l with
  | nil => rfl
  | cons x l ih =>
    rw [strchr, List.contains_cons]
    by_cases hx : x = c
    · rw [if_pos hx, hx, beq_self_eq_true]
      rfl
    · rw [if_neg hx, ih, beq_false_of_ne (Ne.symm hx), Bool.false_or]

theorem strchr_wordChar : (strchr c (WHITESPACE ++ SYMBOLS)).isSome = !isWordChar c := by
  rw [strchr_isSome, List.contains_eq_any_beq, List.any_append, ← List.contains_eq_any_beq, ← List.contains_eq_any_beq]
  unfold isWordChar isWhite isSymbol
  rw [Bool.not_and, Bool.not_not, Bool.not_not]

theorem isString_cons (h : IsString m s (c :: f)) : c ≠ 0 ∧ m s = c ∧ IsString m (s + 1) f :=
  ⟨h.1, Option.some.inj h.2.1, h.2.2⟩

theorem isString_nil (h : IsString m s []) : m s = 0 := Option.some.inj h

/-- White space is skipped and overwritten. -/
theorem skipWhite_run (h : IsString m s f) (hn : f.length < n) :
    ∃ m' s' g, loop Scanner.AtWhite (fun x => some (clearByte x)) n ⟨m, s⟩ = some ⟨m', s'⟩ ∧ IsString m' s' g ∧
      tokens g = tokens f ∧ (∀ c ∈ g.head?, isWhite c = false) ∧ g.length ≤ f.length ∧ s ≤ s' ∧
      (∀ x < s, m' x = m x) ∧ (s' = s ∧ g = f ∨ s < s' ∧ m' s = 0) := by
  induction f generalizing m s n with
  | nil =>
    obtain ⟨n, rfl⟩ := Nat.exists_eq_succ_of_ne_zero (Nat.ne_of_gt hn)
    have hdone : ¬ Scanner.AtWhite ⟨m, s⟩ := by
      show ¬ (strchr (m s) WHITESPACE).isSome = true
      rw [isString_nil h]
      decide
    exact ⟨m, s, [], loop_done hdone n, h, rfl, fun c hc => absurd hc (Option.not_mem_none c), Nat.le_refl _,
      Nat.le_refl s, fun _ _ => rfl, Or.inl ⟨rfl, rfl⟩⟩
  | cons c f ih =>
    obtain ⟨n, rfl⟩ := Nat.exists_eq_succ_of_ne_zero (Nat.ne_of_gt (Nat.zero_lt_of_lt hn))
    obtain ⟨hc, hs, htail⟩ := isString_cons h
    have hcond : Scanner.AtWhite ⟨m, s⟩ ↔ isWhite c = true := by
      show (strchr (m s) WHITESPACE).isSome = true ↔ _
      rw [hs, strchr_isSome]
      rfl
    by_cases hwhite : isWhite c = true
    · have htail' : IsString (Function.update m s 0) (s + 1) f :=
        htail.congr fun x hx _ => congrArg some (Function.update_of_ne (by omega) ..)
      obtain ⟨m', s', g, hrun, hg, htokens, hhead, hlen, hle, hbelow, -⟩ := ih htail' (Nat.lt_of_succ_lt_succ hn)
      refine ⟨m', s', g, ?_, hg, ?_, hhead, Nat.le_succ_of_le hlen, Nat.le_of_succ_le hle, fun x hx => ?_, Or.inr ⟨hle, ?_⟩⟩
      · exact (loop_round (b := fun x => some (clearByte x)) (hcond.mpr hwhite) rfl n).trans hrun
      · rw [htokens, tokens, if_pos hwhite]
      · rw [hbelow x (by omega), Function.update_of_ne (by omega)]
      · rw [hbelow s (by omega), Function.update_self]
    · refine ⟨m, s, c :: f, loop_done (fun hc => hwhite (hcond.mp hc)) n, h, rfl, ?_, Nat.le_refl _, Nat.le_refl s, fun _ _ => rfl,
        Or.inl ⟨rfl, rfl⟩⟩
      intro x hx
      rw [← Option.some.inj hx]
      exact Bool.eq_false_iff.mpr hwhite

/-- A word is read to its end. -/
theorem skipWord_run (h : IsString m s f) (hn : f.length < n) :
    loop Scanner.AtWord (fun y => some (nextByte y)) n ⟨m, s⟩ = some ⟨m, s + (f.takeWhile isWordChar).length⟩ := by
  induction f generalizing s n with
  | nil =>
    obtain ⟨n, rfl⟩ := Nat.exists_eq_succ_of_ne_zero (Nat.ne_of_gt hn)
    exact loop_done (fun hc => hc.1 (isString_nil h)) n
  | cons c f ih =>
    obtain ⟨n, rfl⟩ := Nat.exists_eq_succ_of_ne_zero (Nat.ne_of_gt (Nat.zero_lt_of_lt hn))
    obtain ⟨hc, hs, htail⟩ := isString_cons h
    have hcond : Scanner.AtWord ⟨m, s⟩ ↔ isWordChar c = true := by
      show (m s ≠ 0 ∧ ¬ (strchr (m s) (WHITESPACE ++ SYMBOLS)).isSome = true) ↔ _
      rw [hs, strchr_wordChar, Bool.not_eq_true', Bool.not_eq_false]
      exact and_iff_right hc
    by_cases hword : isWordChar c = true
    · rw [List.takeWhile_cons_of_pos hword, List.length_cons, Nat.add_comm _ 1, ← Nat.add_assoc]
      exact (loop_round (b := fun y => some (nextByte y)) (hcond.mpr hword) rfl n).trans
        (ih htail (Nat.lt_of_succ_lt_succ hn))
    · rw [loop_done (fun hc => hword (hcond.mp hc)), List.takeWhile_cons_of_neg hword]
      rfl

/-- What the calls from now on return: the tokens `ks`, of which the first has been found. -/
def Found.Ahead (n : Nat) (r : Found) : List Token → Prop
  | [] => r.c = 0 ∧ r.p2 = 0
  | k :: ks => r.c = k.kind ∧ r.p2 ≠ 0 ∧ ∃ g, IsString r.mem r.p2 g ∧ g.length < n ∧ tokens g = ks ∧
      ∀ w, k = .word w → r.p2 = r.p1 + w.length ∧ IsString r.mem r.p1 (w ++ g) ∧ ∀ c ∈ g.head?, isWordChar c = false

theorem scanToken_end {m' : ByteMem} {s' : Nat} (hs : s ≠ 0) (h : IsString m' s' [])
    (hrun : loop Scanner.AtWhite (fun x => some (clearByte x)) n ⟨m, s⟩ = some ⟨m', s'⟩) :
    scanToken n m s = some ⟨0, 0, 0, m'⟩ := by
  rw [scanToken, if_neg hs, hrun]
  exact if_pos (isString_nil h)

theorem scanToken_symbol {m' : ByteMem} {s' : Nat} (hs : s ≠ 0) (h : IsString m' s' (c :: f)) (hc : isSymbol c = true)
    (hrun : loop Scanner.AtWhite (fun x => some (clearByte x)) n ⟨m, s⟩ = some ⟨m', s'⟩) :
    scanToken n m s = some ⟨c, s', s' + 1, Function.update m' s' 0⟩ := by
  obtain ⟨hne, rfl, -⟩ := isString_cons h
  rw [scanToken, if_neg hs, hrun]
  refine (if_neg hne).trans (if_pos ?_)
  rwa [strchr_isSome]

theorem scanToken_word {m' : ByteMem} {s' : Nat} (hs : s ≠ 0) (h : IsString m' s' f) (hc : isWordChar c = true)
    (hhead : f.head? = some c) (hn : f.length < n)
    (hrun : loop Scanner.AtWhite (fun x => some (clearByte x)) n ⟨m, s⟩ = some ⟨m', s'⟩) :
    scanToken n m s = some ⟨chr 'w', s', s' + (f.takeWhile isWordChar).length, m'⟩ := by
  obtain ⟨g, rfl⟩ := List.head?_eq_some_iff.mp hhead
  obtain ⟨hne, rfl, -⟩ := isString_cons h
  rw [scanToken, if_neg hs, hrun]
  refine (if_neg hne).trans ((if_neg ?_).trans ?_)
  · rw [strchr_isSome]
    intro hsymbol
    rw [isWordChar, isSymbol, hsymbol, Bool.not_true, Bool.and_false] at hc
    exact Bool.false_ne_true hc
  · rw [skipWord_run h hn]
    rfl

/-- One look finds the first token. It changes nothing in front of `s`, and the byte at `s` becomes
zero unless it belongs to a word. -/
theorem scanToken_run (h : IsString m s f) (hs : s ≠ 0) (hn : f.length < n) :
    ∃ r, scanToken n m s = some r ∧ r.Ahead n (tokens f) ∧ (∀ x < s, r.mem x = m x) ∧
      ((∀ c ∈ f.head?, isWordChar c = false) → r.mem s = 0) ∧ (r.p2 = 0 ∨ s < r.p2) := by
  obtain ⟨m', s', g, hrun, hg, htokens, hhead, hlen, hle, hbelow, hcleared⟩ := skipWhite_run h hn
  rw [← htokens]
  cases g with
  | nil =>
    refine ⟨_, scanToken_end hs hg hrun, ?_, hbelow, fun _ => ?_, Or.inl rfl⟩
    · rw [tokens]
      exact ⟨rfl, rfl⟩
    · rcases hcleared with ⟨rfl, -⟩ | ⟨-, hzero⟩
      · exact isString_nil hg
      · exact hzero
  | cons c g =>
    have hwhite : isWhite c = false := hhead c rfl
    have htail := (isString_cons hg).2.2
    rw [List.length_cons] at hlen
    by_cases hsymbol : isSymbol c = true
    · refine ⟨_, scanToken_symbol hs hg hsymbol hrun, ?_, fun x hx => ?_, fun _ => ?_, Or.inr (Nat.lt_succ_of_le hle)⟩
      · rw [tokens, hwhite, if_neg Bool.false_ne_true, if_pos hsymbol]
        refine ⟨rfl, Nat.succ_ne_zero s', g, ?_, by omega, rfl, fun w hw => by cases hw⟩
        exact htail.congr fun x hx _ => congrArg some (Function.update_of_ne (by omega) ..)
      · exact (Function.update_of_ne (by omega) ..).trans (hbelow x hx)
      · rcases hcleared with ⟨rfl, -⟩ | ⟨hlt, hzero⟩
        · exact Function.update_self ..
        · exact (Function.update_of_ne (Nat.ne_of_lt hlt) ..).trans hzero
    · have hword : isWordChar c = true := by
        rw [isWordChar, hwhite, Bool.eq_false_iff.mpr hsymbol]
        rfl
      have hlt : 0 < ((c :: g).takeWhile isWordChar).length := by
        rw [List.takeWhile_cons_of_pos hword]
        exact Nat.succ_pos _
      have hdrop : (c :: g).dropWhile isWordChar = g.dropWhile isWordChar := List.dropWhile_cons_of_pos hword
      have hshort : (g.dropWhile isWordChar).length ≤ g.length := (List.dropWhile_sublist _).length_le
      refine ⟨_, scanToken_word hs hg hword rfl (by rw [List.length_cons]; omega) hrun, ?_, hbelow, fun hf => ?_,
        Or.inr (show s < s' + _ by omega)⟩
      · rw [tokens, hwhite, if_neg Bool.false_ne_true, if_neg hsymbol, ← List.takeWhile_cons_of_pos hword]
        refine ⟨rfl, show s' + _ ≠ 0 by omega, g.dropWhile isWordChar, ?_, by omega, rfl, fun w hw => ?_⟩
        · rw [← hdrop]
          exact hg.dropWhile isWordChar
        · obtain rfl : (c :: g).takeWhile isWordChar = w := Token.word.inj hw
          refine ⟨rfl, ?_, fun x hx => ?_⟩
          · rwa [← hdrop, List.takeWhile_append_dropWhile]
          · have hnot := List.head?_dropWhile_not isWordChar g
            rwa [Option.mem_def.mp hx] at hnot
      · rcases hcleared with ⟨rfl, rfl⟩ | ⟨-, hzero⟩
        · exact absurd (hf c rfl) (by rw [hword]; decide)
        · exact hzero

end Look

-- ---------------------------------------------------------------------------
-- All calls
-- ---------------------------------------------------------------------------

section Calls

variable {n p : Nat} {x x' : Lexer} {ks : List Token} {k : Token} {w : Text} {t : Nat}

/-- What the call before has found. -/
def Lexer.ahead (x : Lexer) : Found := ⟨x.nc, x.np1, x.np2, x.mem⟩

/-- A word that no call changes any more. -/
def Settled (x : Lexer) (t : Nat) (w : Text) : Prop := IsString x.mem t w ∧ (x.np2 = 0 ∨ t + w.length < x.np2)

theorem gettoken_eq {f : Found} (hf : scanToken n x.mem x.np2 = some f) :
    gettoken n 0 p x = some (x.nc, x.np1, { x with c := x.nc }.found f) := by
  rw [gettoken, if_neg (not_not_intro rfl)]
  show (scanToken n x.mem x.np2).bind _ = _
  rw [hf]
  rfl

/-- A call when the line is at its end. -/
theorem gettoken_done (h : x.ahead.Ahead n []) :
    ∃ x', gettoken n 0 p x = some (0, x.np1, x') ∧ x'.ahead.Ahead n [] ∧
      ∀ t w, Settled x t w → Settled x' t w := by
  have hscan : scanToken n x.mem x.np2 = some ⟨0, 0, 0, x.mem⟩ := if_pos h.2
  refine ⟨({ x with c := x.nc } : Lexer).found ⟨0, 0, 0, x.mem⟩, ?_, ⟨rfl, rfl⟩, fun t w hs => ⟨hs.1, Or.inl rfl⟩⟩
  rw [gettoken_eq hscan, show x.nc = 0 from h.1]

/-- A call that returns a token. If it is a word, the word is a string now. -/
theorem gettoken_step (h : x.ahead.Ahead n (k :: ks)) :
    ∃ x', gettoken n 0 p x = some (k.kind, x.np1, x') ∧ x'.ahead.Ahead n ks ∧
      (∀ w, k = .word w → Settled x' x.np1 w) ∧ ∀ t w, Settled x t w → Settled x' t w := by
  obtain ⟨hc, hne, g, hg, hlen, htokens, hpending⟩ := h
  obtain ⟨r, hscan, hahead, hbelow, hzero, hplace⟩ := scanToken_run hg hne hlen
  rw [htokens] at hahead
  refine ⟨({ x with c := x.nc } : Lexer).found r, ?_, hahead, fun w hw => ?_, fun t w hs => ?_⟩
  · rw [gettoken_eq hscan, show x.nc = k.kind from hc]
  · obtain ⟨hp2, hword, hhead⟩ := hpending w hw
    rw [hp2] at hbelow hzero hplace
    exact ⟨hword.cut (fun a _ ha => congrArg some (hbelow a ha)) (congrArg some (hzero hhead)), hplace⟩
  · have hlt : t + w.length < x.np2 := hs.2.resolve_left hne
    exact ⟨hs.1.congr fun a _ ha => congrArg some (hbelow a (Nat.lt_of_le_of_lt ha hlt)),
      hplace.imp_right fun hlt' => hlt.trans hlt'⟩

/-- The calls give what is ahead, and leave the words alone that have been returned. -/
theorem gettokens_run (k : Nat) (h : x.ahead.Ahead n ks) :
    ∃ rs, gettokens n k x = some rs ∧ rs.length = k ∧ Yields ks rs ∧
      ∀ t w, Settled x t w → ∀ r ∈ rs, IsString r.mem t w := by
  induction k generalizing x ks with
  | zero => exact ⟨[], rfl, rfl, by cases ks <;> trivial, fun t w _ r hr => absurd hr List.not_mem_nil⟩
  | succ k ih =>
    cases ks with
    | nil =>
      obtain ⟨x', hcall, hahead, hkeep⟩ := gettoken_done (p := 0) h
      obtain ⟨rs, hrun, hlen, hyields, hsettled⟩ := ih hahead
      refine ⟨⟨0, x.np1, x'.mem⟩ :: rs, ?_, congrArg Nat.succ hlen, ⟨rfl, hyields⟩, fun t w hs r hr => ?_⟩
      · rw [gettokens, hcall]
        show (gettokens n k x').bind _ = _
        rw [hrun]
        rfl
      · rcases List.mem_cons.mp hr with rfl | hr
        · exact (hkeep t w hs).1
        · exact hsettled t w (hkeep t w hs) r hr
    | cons tok ks =>
      obtain ⟨x', hcall, hahead, hword, hkeep⟩ := gettoken_step (p := 0) h
      obtain ⟨rs, hrun, hlen, hyields, hsettled⟩ := ih hahead
      have hall : ∀ t w, Settled x' t w → ∀ r ∈ ⟨tok.kind, x.np1, x'.mem⟩ :: rs, IsString r.mem t w := by
        intro t w hs r hr
        rcases List.mem_cons.mp hr with rfl | hr
        · exact hs.1
        · exact hsettled t w hs r hr
      refine ⟨⟨tok.kind, x.np1, x'.mem⟩ :: rs, ?_, congrArg Nat.succ hlen,
        ⟨rfl, fun w hw => hall x.np1 w (hword w hw), hyields⟩, fun t w hs => hall t w (hkeep t w hs)⟩
      rw [gettokens, hcall]
      show (gettokens n k x').bind _ = _
      rw [hrun]
      rfl

end Calls

/-- The call that starts with a line. -/
theorem gettoken_start {n s p : Nat} {x : Lexer} {line : Text} (hs : s ≠ 0) (h : IsString x.mem s line)
    (hn : line.length < n) :
    ∃ x', gettoken n s p x = some (0, p, x') ∧ x'.ahead.Ahead n (tokens line) := by
  obtain ⟨r, hscan, hahead, -⟩ := scanToken_run h hs hn
  refine ⟨x.found r, ?_, hahead⟩
  rw [gettoken, if_pos hs, hscan]
  rfl

/-- `gettoken` on any line: the tokens one after the other, then 0 for ever. -/
theorem gettokens_yields (s p n : Nat) (x : Lexer) (line : Text) (hs : s ≠ 0) (h : IsString x.mem s line)
    (hn : line.length < n) :
    ∃ x', gettoken n s p x = some (0, p, x') ∧
      ∀ k, ∃ rs, gettokens n k x' = some rs ∧ rs.length = k ∧ Yields (tokens line) rs := by
  obtain ⟨x', hcall, hahead⟩ := gettoken_start (p := p) hs h hn
  refine ⟨x', hcall, fun k => ?_⟩
  obtain ⟨rs, hrun, hlen, hyields, -⟩ := gettokens_run k hahead
  exact ⟨rs, hrun, hlen, hyields⟩

/-- The line "a|b". -/
theorem gettokens_yields_pipe :
    ∃ x', gettoken 9 5 0 ⟨storeBytes (fun _ => 0) 5 [97#8, 124#8, 98#8], 0, 0, 0, 0⟩ = some (0, 0, x') ∧
      ∀ k, ∃ rs, gettokens 9 k x' = some rs ∧ rs.length = k ∧ Yields (tokens [97#8, 124#8, 98#8]) rs :=
  gettokens_yields 5 0 9 ⟨storeBytes (fun _ => 0) 5 [97#8, 124#8, 98#8], 0, 0, 0, 0⟩ [97#8, 124#8, 98#8] (by decide)
    ⟨by decide, by decide, by decide, by decide, by decide, by decide,
      show some (storeBytes (fun _ => 0) 5 [97#8, 124#8, 98#8] 8) = some 0 by decide⟩ (by decide)

end Mos.User
