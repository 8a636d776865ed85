import Mathlib.Algebra.Group.Int.Defs
import Mos.Base.Print

/-!
# MOS on RISC-V — how the shell reads a line

`readline` of `user/sh.c` stores each byte it reads at `buf[i]`. A backspace or a delete
moves `i` back by two, so that the `i++` of the loop leaves it on the character to be
removed, and the tests that follow look at `buf[i]` again, wherever `i` is by then.
`touched` remembers every index of `buf` that is read or written.

Main results:

* `readlineFrom_touched` — the indices are inside the buffer exactly if no deletion comes
  when the line has less than two characters;
* `readline_right_iff` — then, and only then, `readline` does what it should.
-/

namespace Mos.User

open Mos.Base

-- ---------------------------------------------------------------------------
-- The source
-- ---------------------------------------------------------------------------

structure Line where
  buf : Int → BitVec 8
  touched : List Int
  shown : List String                -- by `printf` and `debugf`

namespace Line

/-- `buf[i] = c`. -/
def store (s : Line) (i : Int) (c : BitVec 8) : Line :=
  { s with buf := Function.update s.buf i c, touched := i :: s.touched }

/-- `buf[i]` is read. -/
def look (s : Line) (i : Int) : Line := { s with touched := i :: s.touched }

def put (s : Line) (text : String) : Line := { s with shown := s.shown ++ [text] }

end Line

def isDeletion (c : BitVec 8) : Prop := c = 0x08#8 ∨ c = 0x7f#8

def isLineEnd (c : BitVec 8) : Prop := c = chr '\r' ∨ c = chr '\n'

instance (c : BitVec 8) : Decidable (isDeletion c) := inferInstanceAs (Decidable (_ ∨ _))

instance (c : BitVec 8) : Decidable (isLineEnd c) := inferInstanceAs (Decidable (_ ∨ _))

/-- `i < n` compares without sign. -/
def unsigned (i : Int) : Nat := (i % 2 ^ 32).toNat

/-- `i + 1`, in 32 bits. -/
def succ32 (i : Int) : Int := (i + 1).bmod (2 ^ 32)

/-- How a round ends: it returns, or goes on at `i`. -/
structure Round where
  done : Bool
  i : Int
  s : Line

/-- The character is stored, and a deletion moves `i`. -/
def readChar (i : Int) (s : Line) (c : BitVec 8) : Int × Line :=
  let s := (s.store i c).look i
  if isDeletion (s.buf i) then
    let i := if 0 < i then i - 2 else -1
    let s := s.look i
    (i, if s.buf i ≠ 0x08#8 then s.put "\x08" else s)
  else (i, s)

/-- A round of the loop in which `read` returns 1. -/
def readRound (i : Int) (s : Line) (c : BitVec 8) : Round :=
  let (i, s) := readChar i s c
  let s := s.look i
  if isLineEnd (s.buf i) then ⟨true, i, s.store i 0⟩ else ⟨false, i, s⟩

/-- The rest of a line that is too long. -/
def skipLine : Line → Text → Line × Text
  | s, [] => (s, [])
  | s, c :: bytes =>
    let s := (s.store 0 c).look 0
    if isLineEnd (s.buf 0) then (s, bytes) else skipLine s bytes

inductive Ending where
  | line
  | tooLong
  | exited                -- `read` returned 0 or an error
  deriving DecidableEq, Repr

structure Outcome where
  ending : Ending
  s : Line
  rest : Text

def tooLong (s : Line) (bytes : Text) : Outcome :=
  let (s, rest) := skipLine (s.put "line too long\n") bytes
  ⟨.tooLong, s.store 0 0, rest⟩

/-- The loop, with the bytes that are still to be read. -/
def readlineFrom (n : Nat) : Text → Int → Line → Outcome
  | [], i, s => if unsigned i < n then ⟨.exited, s, []⟩ else tooLong s []
  | c :: bytes, i, s =>
    if unsigned i < n then
      let r := readRound i s c
      if r.done then ⟨.line, r.s, bytes⟩ else readlineFrom n bytes (succ32 r.i) r.s
    else tooLong s (c :: bytes)

/-- `readline(buf, n)`. -/
def readline (n : Nat) (buf : Int → BitVec 8) (bytes : Text) : Outcome := readlineFrom n bytes 0 ⟨buf, [], []⟩

-- ---------------------------------------------------------------------------
-- What it should do
-- ---------------------------------------------------------------------------

/-- The line that the bytes make behind `line`, if it ends before it has `n` characters. -/
def edited (n : Nat) : Text → Text → Option Text
  | _, [] => none
  | line, c :: bytes =>
    if n ≤ line.length then none
    else if isLineEnd c then some line
    else if isDeletion c then edited n line.dropLast bytes
    else edited n (line ++ [c]) bytes

/-- Only indices of the buffer are used, and a line that ends in time is in it. -/
def ReadlineRight (n : Nat) (buf : Int → BitVec 8) (bytes : Text) : Prop :=
  (∀ i ∈ (readline n buf bytes).s.touched, 0 ≤ i ∧ i < n) ∧
    ∀ l, edited n [] bytes = some l → (readline n buf bytes).ending = .line ∧
      (∀ k (h : k < l.length), (readline n buf bytes).s.buf k = l[k]) ∧ (readline n buf bytes).s.buf l.length = 0

/-- No deletion comes when the line, which has `k` characters now, has less than two; nor does
the line get `2^31` characters, more than an `int` counts. -/
def Tidy (n : Nat) : Nat → Text → Prop
  | _, [] => True
  | k, c :: bytes => k < n → k < 2 ^ 31 ∧
    (¬ isLineEnd c → if isDeletion c then 2 ≤ k ∧ Tidy n (k - 1) bytes else Tidy n (k + 1) bytes)

-- ---------------------------------------------------------------------------
-- Rounds
-- ---------------------------------------------------------------------------

section Rounds

variable {i : Int} {n k : Nat} {s : Line} {c : BitVec 8} {line bytes : Text}

theorem deletion_not_end (h : isDeletion c) : ¬ isLineEnd c := by
  rcases h with rfl | rfl
  · decide
  · decide

/-- The buffer holds the line. -/
def Shows (s : Line) (l : Text) : Prop := ∀ k (h : k < l.length), s.buf k = l[k]

theorem Shows.store (h : Shows s line) (hi : (line.length : Int) ≤ i) (c : BitVec 8) : Shows (s.store i c) line :=
  fun k hk => (Function.update_of_ne (by omega) ..).trans (h k hk)

theorem Shows.dropLast (h : Shows s line) : Shows s line.dropLast := by
  intro k hk
  rw [List.getElem_dropLast]
  rw [List.length_dropLast] at hk
  exact h k (by omega)

theorem Shows.append (h : Shows s line) (hc : s.buf line.length = c) : Shows s (line ++ [c]) := by
  intro k hk
  rw [List.length_append, List.length_singleton] at hk
  by_cases hlt : k < line.length
  · rw [List.getElem_append_left hlt]
    exact h k hlt
  · obtain rfl : k = line.length := by omega
    rw [List.getElem_append_right (Nat.le_refl _)]
    simpa using hc

/-- The end of the line. -/
theorem readRound_end (h : isLineEnd c) :
    readRound i s c = ⟨true, i, ((((s.store i c).look i).look i).store i 0)⟩ := by
  have hbuf : (s.store i c).buf i = c := Function.update_self ..
  have hchar : readChar i s c = (i, (s.store i c).look i) := by
    unfold readChar
    refine if_neg fun hd => deletion_not_end hd ?_
    rwa [show ((s.store i c).look i).buf i = c from hbuf]
  unfold readRound
  rw [hchar]
  refine if_pos ?_
  rwa [show (((s.store i c).look i).look i).buf i = c from hbuf]

/-- Any other character that is no deletion. -/
theorem readRound_char (h : ¬ isLineEnd c) (hd : ¬ isDeletion c) :
    readRound i s c = ⟨false, i, ((s.store i c).look i).look i⟩ := by
  have hbuf : (s.store i c).buf i = c := Function.update_self ..
  have hchar : readChar i s c = (i, (s.store i c).look i) := by
    unfold readChar
    refine if_neg ?_
    rwa [show ((s.store i c).look i).buf i = c from hbuf]
  unfold readRound
  rw [hchar]
  refine if_neg ?_
  rwa [show (((s.store i c).look i).look i).buf i = c from hbuf]

/-- A deletion: the index it moves to is looked at. -/
theorem readRound_deletion (hd : isDeletion c) :
    ∃ j s', j = (if 0 < i then i - 2 else -1) ∧ s'.buf = (s.store i c).buf ∧
      s'.touched = j :: j :: i :: i :: s.touched ∧
      readRound i s c = if isLineEnd (s'.buf j) then ⟨true, j, s'.store j 0⟩ else ⟨false, j, s'⟩ := by
  have hbuf : ((s.store i c).look i).buf i = c := Function.update_self ..
  obtain ⟨j, hj⟩ : ∃ j, j = if 0 < i then i - 2 else -1 := ⟨_, rfl⟩
  obtain ⟨s₁, hs₁⟩ : ∃ s₁, s₁ = if (((s.store i c).look i).look j).buf j ≠ 0x08#8
      then (((s.store i c).look i).look j).put "\x08" else ((s.store i c).look i).look j := ⟨_, rfl⟩
  have hs₁' : s₁.buf = (s.store i c).buf ∧ s₁.touched = j :: i :: i :: s.touched := by
    rw [hs₁]
    split_ifs
    · exact ⟨rfl, rfl⟩
    · exact ⟨rfl, rfl⟩
  have hchar : readChar i s c = (j, s₁) := by
    show (if isDeletion (((s.store i c).look i).buf i) then _ else _) = _
    rw [hbuf, if_pos hd, hs₁, hj]
  refine ⟨j, s₁.look j, hj, hs₁'.1, congrArg (List.cons j) hs₁'.2, ?_⟩
  unfold readRound
  rw [hchar]

/-- What is touched stays so. -/
theorem skipLine_touched {j : Int} (h : j ∈ s.touched) : j ∈ (skipLine s bytes).1.touched := by
  induction bytes generalizing s with
  | nil => exact h
  | cons c bytes ih =>
    have hj : j ∈ ((s.store 0 c).look 0).touched := List.mem_cons_of_mem _ (List.mem_cons_of_mem _ h)
    show j ∈ (if isLineEnd (((s.store 0 c).look 0).buf 0) then _ else _ : Line × Text).1.touched
    split_ifs
    · exact hj
    · exact ih hj

theorem readRound_touched {j : Int} (h : j = i ∨ j ∈ s.touched) : j ∈ (readRound i s c).s.touched := by
  have hcons : ∀ l : List Int, j ∈ i :: (l ++ i :: s.touched) := by
    intro l
    rcases h with rfl | h
    · exact List.mem_cons_self
    · exact List.mem_cons_of_mem _ (List.mem_append_right _ (List.mem_cons_of_mem _ h))
  by_cases hend : isLineEnd c
  · rw [readRound_end hend]
    exact hcons [i, i]
  · by_cases hd : isDeletion c
    · obtain ⟨k, s', -, -, htouched, hround⟩ := readRound_deletion (i := i) (s := s) hd
      have hj : j ∈ s'.touched := by
        rw [htouched]
        exact List.mem_cons_of_mem _ (List.mem_cons_of_mem _ (hcons []))
      rw [hround]
      split_ifs
      · exact List.mem_cons_of_mem _ hj
      · exact hj
    · rw [readRound_char hend hd]
      exact hcons [i]

theorem tooLong_touched {j : Int} (h : j ∈ s.touched) : j ∈ (tooLong s bytes).s.touched :=
  List.mem_cons_of_mem _ (skipLine_touched (s := s.put "line too long\n") h)

theorem readlineFrom_cons : readlineFrom n (c :: bytes) i s =
    if unsigned i < n then
      if (readRound i s c).done then ⟨.line, (readRound i s c).s, bytes⟩
      else readlineFrom n bytes (succ32 (readRound i s c).i) (readRound i s c).s
    else tooLong s (c :: bytes) := rfl

theorem readlineFrom_touched_of_mem {j : Int} (h : j ∈ s.touched) : j ∈ (readlineFrom n bytes i s).s.touched := by
  induction bytes generalizing i s with
  | nil =>
    rw [readlineFrom]
    split_ifs
    · exact h
    · exact tooLong_touched h
  | cons c bytes ih =>
    have hround : j ∈ (readRound i s c).s.touched := readRound_touched (Or.inr h)
    rw [readlineFrom_cons]
    split_ifs
    · exact hround
    · exact ih hround
    · exact tooLong_touched h

end Rounds

-- ---------------------------------------------------------------------------
-- The loop, while the index stays in the buffer
-- ---------------------------------------------------------------------------

section Loop

variable {n : Nat} {s : Line} {c : BitVec 8} {line bytes : Text}

def Inside (n : Nat) (s : Line) : Prop := ∀ i ∈ s.touched, 0 ≤ i ∧ i < n

/-- `i`, when the line has `k` characters. -/
def index (k : Nat) : Int := (k : Int).bmod (2 ^ 32)

theorem index_eq {k : Nat} (h : k < 2 ^ 31) : index k = k :=
  Int.bmod_eq_of_le_mul_two (by omega) (by omega)

/-- An `int` counts no further. -/
theorem index_neg {k : Nat} (h : 2 ^ 31 ≤ k) (h' : k < 2 ^ 32) : index k < 0 :=
  (Int.bmod_neg_iff (by omega) (by omega)).mpr (Or.inr (by omega))

theorem unsigned_index {k : Nat} (h : k < 2 ^ 32) : unsigned (index k) = k := by
  have hmod : index k % 2 ^ 32 = k := Int.bmod_emod.trans (Int.emod_eq_of_lt (by omega) (by omega))
  unfold unsigned
  rw [hmod, Int.toNat_natCast]

theorem succ32_nat (k : Nat) : succ32 k = index (k + 1) := by
  unfold succ32 index
  rw [Int.natCast_add]
  rfl

/-- What is so in each round, as long as no deletion has come too early. -/
structure Editing (n : Nat) (s : Line) (line : Text) : Prop where
  shows : Shows s line
  chars : ∀ c ∈ line, ¬ isLineEnd c
  inside : Inside n s
  le : line.length ≤ n

theorem Editing.char (h : Editing n s line) (hlt : line.length < n) (hend : ¬ isLineEnd c) :
    Editing n (((s.store line.length c).look line.length).look line.length) (line ++ [c]) where
  shows := (h.shows.store (Int.le_refl _) c).append (Function.update_self ..)
  chars := by
    intro x hx
    rcases List.mem_append.mp hx with hx | hx
    · exact h.chars x hx
    · rwa [List.mem_singleton.mp hx]
  inside := by
    intro j hj
    have hin : (0 : Int) ≤ line.length ∧ (line.length : Int) < n := by omega
    rcases List.mem_cons.mp hj with rfl | hj
    · exact hin
    · rcases List.mem_cons.mp hj with rfl | hj
      · exact hin
      · rcases List.mem_cons.mp hj with rfl | hj
        · exact hin
        · exact h.inside j hj
  le := by
    rw [List.length_append]
    exact hlt

/-- A deletion leaves the last character out. -/
theorem Editing.deletion (h : Editing n s line) (htwo : 2 ≤ line.length) (hlt : line.length < 2 ^ 31)
    (hn : line.length < n) (hd : isDeletion c) :
    ∃ s', Editing n s' line.dropLast ∧
      readRound line.length s c = ⟨false, (line.length - 2 : Nat), s'⟩ := by
  obtain ⟨j, s', hj, hbuf, htouched, hround⟩ := readRound_deletion (i := line.length) (s := s) hd
  obtain rfl : j = (line.length - 2 : Nat) := by
    rw [hj, if_pos (by omega)]
    omega
  have hshows : Shows s' line := fun k hk => (congrFun hbuf _).trans (h.shows.store (Int.le_refl _) c k hk)
  have hlook := hshows (line.length - 2) (by omega)
  refine ⟨s', ⟨hshows.dropLast, fun x hx => h.chars x (List.dropLast_subset line hx), ?_, ?_⟩, ?_⟩
  · intro k hk
    rw [htouched] at hk
    simp only [List.mem_cons] at hk
    rcases hk with rfl | rfl | rfl | rfl | hk
    · omega
    · omega
    · omega
    · omega
    · exact h.inside k hk
  · rw [List.length_dropLast]
    exact (Nat.sub_le ..).trans h.le
  · rw [hround, hlook, if_neg (h.chars _ (List.getElem_mem _))]

/-- A deletion that comes too early leaves the buffer. -/
theorem readRound_early (h : line.length < 2) (hd : isDeletion c) :
    (-1 : Int) ∈ (readRound line.length s c).s.touched := by
  obtain ⟨j, s', hj, -, htouched, hround⟩ := readRound_deletion (i := line.length) (s := s) hd
  obtain rfl : j = -1 := by
    rw [hj]
    split_ifs
    · omega
    · rfl
  have hmem : (-1 : Int) ∈ s'.touched := by
    rw [htouched]
    exact List.mem_cons_self
  rw [hround]
  split_ifs
  · exact List.mem_cons_of_mem _ hmem
  · exact hmem

theorem Inside.cons {i : Int} {s' : Line} (h : Inside n s) (hi : 0 ≤ i ∧ i < n) (hs : s'.touched = i :: s.touched) :
    Inside n s' := by
  intro j hj
  rw [hs] at hj
  rcases List.mem_cons.mp hj with rfl | hj
  · exact hi
  · exact h j hj

theorem skipLine_inside (h : Inside n s) (hn : 0 < n) : Inside n (skipLine s bytes).1 := by
  induction bytes generalizing s with
  | nil => exact h
  | cons c bytes ih =>
    have hzero : (0 : Int) ≤ 0 ∧ (0 : Int) < n := by omega
    have hs : Inside n ((s.store 0 c).look 0) := (h.cons hzero rfl : Inside n (s.store 0 c)).cons hzero rfl
    show Inside n (if isLineEnd (((s.store 0 c).look 0).buf 0) then _ else _ : Line × Text).1
    split_ifs
    · exact hs
    · exact ih hs

theorem tooLong_inside (h : Inside n s) (hn : 0 < n) : Inside n (tooLong s bytes).s :=
  (skipLine_inside (s := s.put "line too long\n") h hn).cons (by omega) rfl

/-- The loop goes round. -/
theorem readlineFrom_round {k : Nat} (hlt : k < n) (hint : k < 2 ^ 31) : readlineFrom n (c :: bytes) (index k) s =
    if (readRound k s c).done then ⟨.line, (readRound k s c).s, bytes⟩
    else readlineFrom n bytes (succ32 (readRound k s c).i) (readRound k s c).s := by
  rw [readlineFrom_cons, unsigned_index (by omega), if_pos hlt, index_eq hint]

theorem readlineFrom_end {k : Nat} (hlt : k < n) (hint : k < 2 ^ 31) (hend : isLineEnd c) :
    readlineFrom n (c :: bytes) (index k) s = ⟨.line, (((s.store k c).look k).look k).store k 0, bytes⟩ := by
  rw [readlineFrom_round hlt hint, readRound_end hend]
  simp only [if_true]

theorem readlineFrom_char {k : Nat} (hlt : k < n) (hint : k < 2 ^ 31) (hend : ¬ isLineEnd c) (hd : ¬ isDeletion c) :
    readlineFrom n (c :: bytes) (index k) s =
      readlineFrom n bytes (index (k + 1)) (((s.store k c).look k).look k) := by
  rw [readlineFrom_round hlt hint, readRound_char hend hd]
  simp only [Bool.false_eq_true, if_false, succ32_nat]

theorem readlineFrom_deletion (h : Editing n s line) (bytes : Text) (hlt : line.length < n) (hint : line.length < 2 ^ 31)
    (hd : isDeletion c) (htwo : 2 ≤ line.length) :
    ∃ s', Editing n s' line.dropLast ∧ readlineFrom n (c :: bytes) (index line.length) s =
      readlineFrom n bytes (index line.dropLast.length) s' := by
  obtain ⟨s', hs', hround⟩ := h.deletion htwo hint hlt hd
  refine ⟨s', hs', ?_⟩
  have hlen : line.length - 2 + 1 = line.dropLast.length := by
    rw [List.length_dropLast]
    omega
  rw [readlineFrom_round hlt hint, hround]
  simp only [Bool.false_eq_true, if_false, succ32_nat, hlen]

/-- Once an index outside is used, it has been used. -/
theorem not_inside_round {i j : Int} (hi : unsigned i < n) (hj : j < 0) (hmem : j ∈ (readRound i s c).s.touched) :
    ¬ Inside n (readlineFrom n (c :: bytes) i s).s := by
  intro hin
  refine absurd (hin j ?_).1 (Int.not_le.mpr hj)
  rw [readlineFrom_cons, if_pos hi]
  split_ifs
  · exact hmem
  · exact readlineFrom_touched_of_mem hmem

/-- The indices are in the buffer exactly if no deletion comes too early. -/
theorem readlineFrom_touched (h : Editing n s line) (bytes : Text) (hpos : 0 < n) (hn : n < 2 ^ 32) :
    Inside n (readlineFrom n bytes (index line.length) s).s ↔ Tidy n line.length bytes := by
  have hle := h.le
  induction bytes generalizing s line with
  | nil =>
    refine iff_of_true ?_ trivial
    rw [readlineFrom]
    split_ifs
    · exact h.inside
    · exact tooLong_inside h.inside hpos
  | cons c bytes ih =>
    rcases Nat.lt_or_ge line.length n with hlt | hge
    · have hi : unsigned (index line.length) < n := by rwa [unsigned_index (hlt.trans hn)]
      rcases Nat.lt_or_ge line.length (2 ^ 31) with hint | hint
      · have htidy : Tidy n line.length (c :: bytes) ↔ (¬ isLineEnd c → if isDeletion c
            then 2 ≤ line.length ∧ Tidy n (line.length - 1) bytes else Tidy n (line.length + 1) bytes) :=
          ⟨fun ht => (ht hlt).2, fun ht _ => ⟨hint, ht⟩⟩
        rw [htidy]
        by_cases hend : isLineEnd c
        · rw [readlineFrom_end hlt hint hend]
          refine iff_of_true ?_ fun hne => absurd hend hne
          have hin : (0 : Int) ≤ line.length ∧ (line.length : Int) < n := by omega
          exact (h.char hlt (c := 0) (by decide)).inside.cons hin rfl
        · by_cases hd : isDeletion c
          · rw [if_pos hd]
            rcases Nat.lt_or_ge line.length 2 with hone | htwo
            · refine iff_of_false (not_inside_round hi (j := -1) (by decide) ?_) fun ht =>
                absurd (ht hend).1 (Nat.not_le.mpr hone)
              rw [index_eq hint]
              exact readRound_early hone hd
            · obtain ⟨s', hs', hrun⟩ := readlineFrom_deletion h bytes hlt hint hd htwo
              rw [hrun]
              refine (ih hs' hs'.le).trans ?_
              rw [List.length_dropLast]
              exact ⟨fun ht _ => ⟨htwo, ht⟩, fun ht => (ht hend).2⟩
          · have hs' := h.char hlt hend
            have hlen : (line ++ [c]).length = line.length + 1 := List.length_append
            rw [readlineFrom_char hlt hint hend hd, if_neg hd, ← hlen]
            exact (ih hs' hs'.le).trans ⟨fun ht _ => ht, fun ht => ht hend⟩
      · refine iff_of_false (not_inside_round hi (index_neg hint (hlt.trans hn)) (readRound_touched (Or.inl rfl)))
          fun ht => absurd (ht hlt).1 (Nat.not_lt.mpr hint)
    · rw [readlineFrom_cons, unsigned_index (Nat.lt_of_le_of_lt hle hn), if_neg (Nat.not_lt.mpr hge)]
      exact iff_of_true (tooLong_inside h.inside hpos) fun hlt => absurd hlt (Nat.not_lt.mpr hge)

/-- A line that ends in time. -/
theorem readlineFrom_edited {l : Text} (h : Editing n s line) (ht : Tidy n line.length bytes)
    (hl : edited n line bytes = some l) :
    ∃ s' rest, readlineFrom n bytes (index line.length) s = ⟨.line, s', rest⟩ ∧ Shows s' l ∧ s'.buf l.length = 0 := by
  induction bytes generalizing s line with
  | nil => exact absurd hl (Option.some_ne_none l).symm
  | cons c bytes ih =>
    rw [edited] at hl
    split_ifs at hl with hge hend hd
    · obtain rfl : line = l := Option.some.inj hl
      have hlt := Nat.lt_of_not_le hge
      refine ⟨_, bytes, readlineFrom_end hlt (ht hlt).1 hend, ?_, Function.update_self ..⟩
      exact (h.shows.store (Int.le_refl _) c).store (Int.le_refl _) 0
    · have hlt := Nat.lt_of_not_le hge
      have ht' := (ht hlt).2 hend
      rw [if_pos hd] at ht'
      obtain ⟨s', hs', hrun⟩ := readlineFrom_deletion h bytes hlt (ht hlt).1 hd ht'.1
      rw [hrun]
      refine ih hs' ?_ hl
      rw [List.length_dropLast]
      exact ht'.2
    · have hlt := Nat.lt_of_not_le hge
      have ht' := (ht hlt).2 hend
      rw [if_neg hd] at ht'
      have hlen : (line ++ [c]).length = line.length + 1 := List.length_append
      rw [readlineFrom_char hlt (ht hlt).1 hend hd, ← hlen]
      refine ih (h.char hlt hend) ?_ hl
      rw [hlen]
      exact ht'

end Loop

/-- `readline` does what it should exactly if no deletion comes too early. -/
theorem readline_right_iff (n : Nat) (hn : 2 ≤ n) (hn' : n < 2 ^ 32) (buf : Int → BitVec 8) (bytes : Text) :
    ReadlineRight n buf bytes ↔ Tidy n 0 bytes := by
  have h : Editing n ⟨buf, [], []⟩ [] :=
    ⟨fun _ hk => absurd hk (Nat.not_lt_zero _), fun _ hc => absurd hc List.not_mem_nil,
      fun _ hi => absurd hi List.not_mem_nil, Nat.zero_le n⟩
  have hstart : readline n buf bytes = readlineFrom n bytes (index 0) ⟨buf, [], []⟩ := by
    rw [index_eq (by decide)]
    rfl
  have hinside := readlineFrom_touched h bytes (by omega) hn'
  unfold ReadlineRight
  rw [hstart]
  refine ⟨fun hright => hinside.mp hright.1, fun ht => ⟨hinside.mpr ht, fun l hl => ?_⟩⟩
  obtain ⟨s', rest, hrun, hshows, hzero⟩ := readlineFrom_edited h ht hl
  have hrun' : readlineFrom n bytes (index 0) ⟨buf, [], []⟩ = ⟨.line, s', rest⟩ := hrun
  rw [hrun']
  exact ⟨rfl, hshows, hzero⟩

/-- "ab", of which the b is deleted. -/
theorem readline_right_iff_two : ReadlineRight 1024 (fun _ => 0) [97#8, 98#8, 0x7f#8, 10#8] :=
  (readline_right_iff 1024 (by decide) (by decide) (fun _ => 0) [97#8, 98#8, 0x7f#8, 10#8]).mpr
    (by simp [Tidy, isDeletion, isLineEnd, chr])

/-- A backspace in front of the line: `buf[-1]` is read. -/
theorem readline_backspace : ¬ ReadlineRight 1024 (fun _ => 0) [0x08#8, 97#8, 10#8] := by
  intro h
  exact absurd (h.1 (-1) (by decide)).1 (by decide)

end Mos.User
