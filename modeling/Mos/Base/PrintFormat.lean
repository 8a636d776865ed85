import Mos.Base.PrintNum

/-!
# MOS on RISC-V — what a format means

A format is read character by character: it is a sequence of characters of text, of `%%`
and of directives, and it may end inside a directive. `vprintfmt` looks ahead, steps back
at the end of a string, and does what the characters say.

Main results:

* `formatFrom_run` — the loop of `vprintfmt` puts out the pieces of the format, one by one;
* `vprintfmt_compositional` — it returns for every format, and formats can be put together;
* `print_num_right` — numbers are printed right, and a text printed for `%d` reads back.
-/

namespace Mos.Base

open Mos.Lib

-- ---------------------------------------------------------------------------
-- Formats, character by character
-- ---------------------------------------------------------------------------

/-- Where a reader of a format stands. -/
inductive Scan where
  | text
  | percent                                    -- behind `%`
  | flags (ladjust : Bool)                     -- behind `%-`
  | width (ladjust zero : Bool) (w : Nat)      -- behind `0` or a digit
  | long (ladjust zero : Bool) (w : Nat)       -- behind `l`
  deriving DecidableEq, Repr

inductive Piece where
  | char (c : BitVec 8)
  | percent                                    -- `%%`
  | directive (d : Flags) (c : BitVec 8)
  deriving DecidableEq, Repr

/-- The width read so far. -/
def Scan.read : Scan → Nat
  | .width _ _ w => w
  | .long _ _ w => w
  | _ => 0

def lengthStep (ladjust zero : Bool) (w : Nat) (c : BitVec 8) : Scan × List Piece :=
  if c = chr 'l' then (.long ladjust zero w, []) else (.text, [.directive ⟨ladjust, zero, w, false⟩ c])

def widthStep (ladjust zero : Bool) (w : Nat) (c : BitVec 8) : Scan × List Piece :=
  if isDigit c then (.width ladjust zero (10 * w + (c.toNat - '0'.toNat)), []) else lengthStep ladjust zero w c

def flagStep (ladjust : Bool) (c : BitVec 8) : Scan × List Piece :=
  if c = chr '0' then (.width ladjust true 0, []) else widthStep ladjust false 0 c

/-- The next character. -/
def Scan.step : Scan → BitVec 8 → Scan × List Piece
  | .text, c => if c = chr '%' then (.percent, []) else (.text, [.char c])
  | .percent, c =>
    if c = chr '%' then (.text, [.percent]) else if c = chr '-' then (.flags true, []) else flagStep false c
  | .flags ladjust, c => flagStep ladjust c
  | .width ladjust zero w, c => widthStep ladjust zero w c
  | .long ladjust zero w, c => (.text, [.directive ⟨ladjust, zero, w, true⟩ c])

/-- Where the reader of a format gets from `q`. -/
def Scan.after : Scan → Text → Scan
  | q, [] => q
  | q, c :: f => ((q.step c).1).after f

/-- What it has read by then. -/
def Scan.pieces : Scan → Text → List Piece
  | _, [] => []
  | q, c :: f => (q.step c).2 ++ ((q.step c).1).pieces f

/-- The format does not end inside a directive. -/
def Whole (f : Text) : Prop := Scan.text.after f = .text

/-- The widths in a format are below `2^31 - 70`. -/
def Scan.Narrow : Scan → Text → Prop
  | q, [] => q.read < 2 ^ 31 - 70
  | q, c :: f => q.read < 2 ^ 31 - 70 ∧ ((q.step c).1).Narrow f

/-- The conversions that take an argument. -/
def Piece.takesArg : Piece → Bool
  | .directive _ c => c ∈ ['b', 'd', 'D', 'o', 'O', 'u', 'U', 'x', 'X', 'c', 's'].map chr
  | _ => false

/-- How many there are in a format. -/
def conversions (f : Text) : Nat := (Scan.text.pieces f).countP Piece.takesArg

/-- The argument `w` is one for the piece: for `%s`, it points to a string. -/
def Piece.Takes (m : Mapped) (w : BitVec 32) : Piece → Prop
  | .directive _ c => c = chr 's' → ∃ t, CString m w.toNat t
  | _ => True

/-- The arguments are those for the pieces, one for each that takes one. -/
def Supplies (m : Mapped) : List Piece → List (BitVec 32) → Prop
  | [], ap => ap = []
  | p :: ps, ap => if p.takesArg then ∃ w ap', ap = w :: ap' ∧ p.Takes m w ∧ Supplies m ps ap' else Supplies m ps ap

/-- The calls of `out` for a piece, and the arguments left. -/
def Piece.print (m : Mapped) (n : Nat) : Piece → List (BitVec 32) → Option (List Text × List (BitVec 32))
  | .char c, ap => some ([[c]], ap)
  | .percent, ap => some ([[chr '%']], ap)
  | .directive d c, ap => convert m n c d ap

/-- The text of the pieces, and the arguments left. -/
def printAll (m : Mapped) (n : Nat) : List Piece → List (BitVec 32) → Option (Text × List (BitVec 32))
  | [], ap => some ([], ap)
  | p :: ps, ap => do
    let (out, ap) ← p.print m n ap
    let (text, ap) ← printAll m n ps ap
    return (out.flatten ++ text, ap)

section Scan

variable {q q' : Scan} {c : BitVec 8} {f g : Text}

theorem after_append (q : Scan) (f g : Text) : q.after (f ++ g) = (q.after f).after g := by
  induction f generalizing q with
  | nil => rfl
  | cons c f ih => exact ih (q.step c).1

theorem pieces_append (q : Scan) (f g : Text) : q.pieces (f ++ g) = q.pieces f ++ (q.after f).pieces g := by
  induction f generalizing q with
  | nil => rfl
  | cons c f ih =>
    rw [List.cons_append, Scan.pieces, ih (q.step c).1, ← List.append_assoc]
    rfl

theorem Scan.Narrow.read_lt (h : q.Narrow f) : q.read < 2 ^ 31 - 70 := by
  cases f with
  | nil => exact h
  | cons c f => exact h.1

theorem narrow_append (h : q.Narrow (f ++ g)) : (q.after f).Narrow g := by
  induction f generalizing q with
  | nil => exact h
  | cons c f ih => exact ih h.2

theorem narrow_of_append (hf : q.Narrow f) (hg : (q.after f).Narrow g) : q.Narrow (f ++ g) := by
  induction f generalizing q with
  | nil => exact hg
  | cons c f ih => exact ⟨hf.1, ih hf.2 hg⟩

/-- Two places from which the next character leads to the same. -/
theorem pieces_congr (h : ∀ c, f.head? = some c → q.step c = q'.step c) : q.pieces f = q'.pieces f := by
  cases f with
  | nil => rfl
  | cons c f => rw [Scan.pieces, Scan.pieces, h c rfl]

theorem narrow_congr (h : ∀ c, f.head? = some c → q.step c = q'.step c) (hq : q'.read < 2 ^ 31 - 70)
    (hn : q.Narrow f) : q'.Narrow f := by
  cases f with
  | nil => exact hq
  | cons c f => exact ⟨hq, h c rfl ▸ hn.2⟩

/-- Text up to the next `%`. -/
theorem after_text (h : chr '%' ∉ f) : Scan.text.after f = .text ∧ Scan.text.pieces f = f.map Piece.char := by
  induction f with
  | nil => exact ⟨rfl, rfl⟩
  | cons c f ih =>
    rw [List.mem_cons, not_or] at h
    have hstep : Scan.text.step c = (.text, [.char c]) := if_neg (Ne.symm h.1)
    obtain ⟨hafter, hpieces⟩ := ih h.2
    rw [Scan.after, Scan.pieces, hstep, hpieces]
    exact ⟨hafter, rfl⟩

end Scan

section PrintAll

variable {m : Mapped} {n : Nat} {ap ap' : List (BitVec 32)} {t : Text} {p : Piece} {ps : List Piece}

/-- The first piece, and the others. -/
theorem printAll_cons (h : printAll m n (p :: ps) ap = some (t, ap')) :
    ∃ out ap₁ t₁, p.print m n ap = some (out, ap₁) ∧ printAll m n ps ap₁ = some (t₁, ap') ∧ t = out.flatten ++ t₁ := by
  obtain ⟨⟨out, ap₁⟩, hp, h₁⟩ := Option.bind_eq_some_iff.mp h
  obtain ⟨⟨t₁, ap₂⟩, hps, h₂⟩ := Option.bind_eq_some_iff.mp h₁
  obtain ⟨rfl, rfl⟩ := Prod.mk.inj (Option.some.inj h₂)
  exact ⟨out, ap₁, t₁, hp, hps, rfl⟩

theorem printAll_cons_some {out : List Text} {ap₁ : List (BitVec 32)} {t₁ : Text} (hp : p.print m n ap = some (out, ap₁))
    (hps : printAll m n ps ap₁ = some (t₁, ap')) : printAll m n (p :: ps) ap = some (out.flatten ++ t₁, ap') := by
  rw [printAll, hp]
  show (printAll m n ps ap₁).bind _ = _
  rw [hps]
  rfl

theorem printAll_append {qs : List Piece} {ap'' : List (BitVec 32)} {t' : Text}
    (h : printAll m n ps ap = some (t, ap')) (h' : printAll m n qs ap' = some (t', ap'')) :
    printAll m n (ps ++ qs) ap = some (t ++ t', ap'') := by
  induction ps generalizing ap t with
  | nil =>
    obtain ⟨rfl, rfl⟩ := Prod.mk.inj (Option.some.inj h)
    exact h'
  | cons p ps ih =>
    obtain ⟨out, ap₁, t₁, hp, hps, rfl⟩ := printAll_cons h
    rw [List.append_assoc]
    exact printAll_cons_some hp (ih hps)

/-- Text before the pieces. -/
theorem printAll_text (f : Text) (h : printAll m n (f.map Piece.char ++ ps) ap = some (t, ap')) :
    ∃ t₁, printAll m n ps ap = some (t₁, ap') ∧ t = f ++ t₁ := by
  induction f generalizing t with
  | nil => exact ⟨t, h, rfl⟩
  | cons c f ih =>
    obtain ⟨out, ap₁, t₁, hp, hps, rfl⟩ := printAll_cons h
    obtain ⟨rfl, rfl⟩ := Prod.mk.inj (Option.some.inj hp)
    obtain ⟨t₂, ht₂, rfl⟩ := ih hps
    exact ⟨t₂, ht₂, rfl⟩

end PrintAll

-- ---------------------------------------------------------------------------
-- The scans of a directive
-- ---------------------------------------------------------------------------

section Directive

variable {m : Mapped} {a n : Nat} {c : BitVec 8} {f : Text} {ladjust zero : Bool}

theorem isDigit_value : ∀ c : BitVec 8, isDigit c = true → (c &&& 15#8).toNat = c.toNat - '0'.toNat := by
  decide

theorem isDigit_zero : isDigit 0 = false := by decide

/-- Address `a'`, where `g` is left of the string `f` at `a`. -/
structure Later (m : Mapped) (a : Nat) (f : Text) (a' : Nat) (g : Text) : Prop where
  le : g.length ≤ f.length
  pos : a' + g.length = a + f.length
  str : CString m a' g

theorem Later.refl (h : CString m a f) : Later m a f a f := ⟨Nat.le_refl _, rfl, h⟩

theorem Later.trans {a₁ a₂ : Nat} {f₁ f₂ : Text} (h : Later m a f a₁ f₁) (h' : Later m a₁ f₁ a₂ f₂) :
    Later m a f a₂ f₂ :=
  ⟨Nat.le_trans h'.le h.le, h'.pos.trans h.pos, h'.str⟩

theorem Later.next (h : CString m a (c :: f)) : Later m a (c :: f) (a + 1) f := by
  refine ⟨Nat.le_succ _, ?_, h.2.2⟩
  rw [List.length_cons]
  omega

theorem scanWidth_some {w : Nat} (h : m a = some c) : scanWidth m (n + 1) a w =
    if isDigit c then
      if 2 ^ 31 ≤ (w <<< 1) + (w <<< 3) + (c &&& 15#8).toNat then none
      else scanWidth m n (a + 1) ((w <<< 1) + (w <<< 3) + (c &&& 15#8).toNat)
    else some (w, a) := by
  rw [scanWidth, h]
  rfl

/-- The digits of a width. The scan stops at the zero byte at the latest. -/
theorem scanWidth_run (h : CString m a f) {w : Nat} (hn : (Scan.width ladjust zero w).Narrow f)
    (hfuel : f.length < n) :
    ∃ w' a' g, scanWidth m n a w = some (w', a') ∧ Later m a f a' g ∧
      (∀ c, g.head? = some c → isDigit c = false) ∧
      (Scan.width ladjust zero w).pieces f = (Scan.width ladjust zero w').pieces g ∧
      (Scan.width ladjust zero w').Narrow g := by
  induction f generalizing a n w with
  | nil =>
    obtain ⟨n, rfl⟩ := Nat.exists_eq_succ_of_ne_zero (Nat.ne_of_gt (Nat.zero_lt_of_lt hfuel))
    refine ⟨w, a, [], ?_, .refl h, fun c hc => absurd hc.symm (Option.some_ne_none c), rfl, hn⟩
    rw [scanWidth_some h, isDigit_zero, if_neg Bool.false_ne_true]
  | cons c f ih =>
    obtain ⟨n, rfl⟩ := Nat.exists_eq_succ_of_ne_zero (Nat.ne_of_gt (Nat.zero_lt_of_lt hfuel))
    by_cases hd : isDigit c = true
    · have hstep : (Scan.width ladjust zero w).step c = (.width ladjust zero (10 * w + (c.toNat - '0'.toNat)), []) :=
        if_pos hd
      have hvalue : (w <<< 1) + (w <<< 3) + (c &&& 15#8).toNat = 10 * w + (c.toNat - '0'.toNat) := by
        rw [isDigit_value c hd, Nat.shiftLeft_eq, Nat.shiftLeft_eq]
        omega
      have hn' := hn.2
      rw [hstep] at hn'
      have hlt : 10 * w + (c.toNat - '0'.toNat) < 2 ^ 31 - 70 := hn'.read_lt
      obtain ⟨w', a', g, hrun, hg, hhead, hpieces, hng⟩ := ih h.2.2 hn' (Nat.lt_of_succ_lt_succ hfuel)
      refine ⟨w', a', g, ?_, (Later.next h).trans hg, hhead, ?_, hng⟩
      · rw [scanWidth_some h.2.1, if_pos hd, hvalue, if_neg (by omega), hrun]
      · rw [← hpieces, Scan.pieces, hstep]
        rfl
    · refine ⟨w, a, c :: f, ?_, .refl h, ?_, rfl, hn⟩
      · rw [scanWidth_some h.2.1, if_neg hd]
      · intro x hx
        rw [← Option.some.inj hx]
        exact Bool.eq_false_iff.mpr hd

/-- A character that may stand there. -/
theorem scanFlag_run (h : CString m a f) (flag : Char) (hflag : chr flag ≠ 0) :
    (∃ g, f = chr flag :: g ∧ scanFlag m flag a = some (true, a + 1)) ∨
      ((∀ c, f.head? = some c → c ≠ chr flag) ∧ scanFlag m flag a = some (false, a)) := by
  have hrun : scanFlag m flag a = some (if f.headD 0 = chr flag then (true, a + 1) else (false, a)) := by
    rw [scanFlag, h.first]
    rfl
  rw [hrun]
  cases f with
  | nil =>
    exact Or.inr ⟨fun c hc => absurd hc.symm (Option.some_ne_none c), congrArg some (if_neg hflag.symm)⟩
  | cons c f =>
    by_cases hc : c = chr flag
    · exact Or.inl ⟨f, by rw [hc], congrArg some (if_pos hc)⟩
    · refine Or.inr ⟨fun x hx => ?_, congrArg some (if_neg hc)⟩
      rw [← Option.some.inj hx]
      exact hc

/-- Up to the width: flags and the width itself. -/
theorem scanFlags_run (h : CString m a f) (hhead : ∀ c, f.head? = some c → c ≠ chr '%')
    (hn : Scan.percent.Narrow f) :
    ∃ l a₁ z a₂ g, scanFlag m '-' a = some (l, a₁) ∧ scanFlag m '0' a₁ = some (z, a₂) ∧ Later m a f a₂ g ∧
      Scan.percent.pieces f = (Scan.width l z 0).pieces g ∧ (Scan.width l z 0).Narrow g := by
  obtain ⟨l, a₁, f₁, hrun₁, hlater₁, hpieces₁, hn₁⟩ : ∃ l a₁ f₁, scanFlag m '-' a = some (l, a₁) ∧
      Later m a f a₁ f₁ ∧ Scan.percent.pieces f = (Scan.flags l).pieces f₁ ∧ (Scan.flags l).Narrow f₁ := by
    rcases scanFlag_run h '-' (by decide) with ⟨g, rfl, hrun⟩ | ⟨hne, hrun⟩
    · exact ⟨true, a + 1, g, hrun, .next h, rfl, hn.2⟩
    · have hstep : ∀ c, f.head? = some c → Scan.percent.step c = (Scan.flags false).step c := fun c hc =>
        (if_neg (hhead c hc)).trans (if_neg (hne c hc))
      exact ⟨false, a, f, hrun, .refl h, pieces_congr hstep, narrow_congr hstep (by decide) hn⟩
  rcases scanFlag_run hlater₁.str '0' (by decide) with ⟨g, rfl, hrun⟩ | ⟨hne, hrun⟩
  · exact ⟨l, a₁, true, a₁ + 1, g, hrun₁, hrun, hlater₁.trans (.next hlater₁.str), hpieces₁, hn₁.2⟩
  · have hstep : ∀ c, f₁.head? = some c → (Scan.flags l).step c = (Scan.width l false 0).step c := fun c hc =>
      if_neg (hne c hc)
    exact ⟨l, a₁, false, a₁, f₁, hrun₁, hrun, hlater₁, hpieces₁.trans (pieces_congr hstep),
      narrow_congr hstep (Nat.zero_lt_of_lt hn₁.read_lt) hn₁⟩

/-- The letter l, and what the character behind it makes of the directive. -/
theorem scanLong_run {w : Nat} (h : CString m a f) (hhead : ∀ c, f.head? = some c → isDigit c = false)
    (hn : (Scan.width ladjust zero w).Narrow f) :
    ∃ long a' g, scanFlag m 'l' a = some (long, a') ∧ Later m a f a' g ∧
      (g = [] → (Scan.width ladjust zero w).pieces f = []) ∧
      ∀ c g', g = c :: g' → (Scan.width ladjust zero w).pieces f =
        .directive ⟨ladjust, zero, w, long⟩ c :: Scan.text.pieces g' ∧ Scan.text.Narrow g' := by
  rcases scanFlag_run h 'l' (by decide) with ⟨g, rfl, hrun⟩ | ⟨hne, hrun⟩
  · have hstep : (Scan.width ladjust zero w).step (chr 'l') = (.long ladjust zero w, []) := by
      show widthStep _ _ _ _ = _
      rw [widthStep, if_neg (by decide)]
      exact if_pos rfl
    have hpieces : (Scan.width ladjust zero w).pieces (chr 'l' :: g) = (Scan.long ladjust zero w).pieces g := by
      rw [Scan.pieces, hstep]
      rfl
    have hn' := hn.2
    rw [hstep] at hn'
    refine ⟨true, a + 1, g, hrun, .next h, ?_, ?_⟩
    · rintro rfl
      exact hpieces
    · rintro c g' rfl
      exact ⟨hpieces, hn'.2⟩
  · refine ⟨false, a, f, hrun, .refl h, ?_, ?_⟩
    · rintro rfl
      rfl
    · rintro c g' rfl
      have hstep : (Scan.width ladjust zero w).step c = (.text, [.directive ⟨ladjust, zero, w, false⟩ c]) := by
        show widthStep _ _ _ _ = _
        rw [widthStep, if_neg (by rw [hhead c rfl]; exact Bool.false_ne_true)]
        exact if_neg (hne c rfl)
      have hn' := hn.2
      rw [hstep] at hn'
      refine ⟨?_, hn'⟩
      rw [Scan.pieces, hstep]
      rfl

/-- **A directive.** Either the format ends in it, and nothing is put out, or the conversion
is carried out and the format goes on behind it. -/
theorem directive_run (h : CString m a f) (ha : 0 < a) (hhead : ∀ c, f.head? = some c → c ≠ chr '%')
    (hn : Scan.percent.Narrow f) (hfuel : f.length < n) (ap : List (BitVec 32)) (out : List Text) :
    (Scan.percent.pieces f = [] ∧ directive m n ⟨a, ap, out⟩ = some ⟨a + f.length, ap, out⟩) ∨
      ∃ d c a' g, Scan.percent.pieces f = .directive d c :: Scan.text.pieces g ∧ d.width < 2 ^ 31 - 70 ∧
        Scan.text.Narrow g ∧ Later m a f a' g ∧ g.length < f.length ∧
        directive m n ⟨a, ap, out⟩ = (convert m n c d ap).map fun r => ⟨a', r.2, out ++ r.1⟩ := by
  obtain ⟨l, a₁, z, a₂, f₂, hrun₁, hrun₂, hlater₂, hpieces₂, hn₂⟩ := scanFlags_run h hhead hn
  obtain ⟨w, a₃, f₃, hrun₃, hlater₃, hdigit, hpieces₃, hn₃⟩ := scanWidth_run hlater₂.str hn₂
    (Nat.lt_of_le_of_lt hlater₂.le hfuel)
  obtain ⟨long, a₄, f₄, hrun₄, hlater₄, hcut, hconv⟩ := scanLong_run hlater₃.str hdigit hn₃
  have hlater := (hlater₂.trans hlater₃).trans hlater₄
  have hpieces := hpieces₂.trans hpieces₃
  have hpos := hlater.pos
  have hdir : directive m n ⟨a, ap, out⟩ = (m a₄).bind fun c =>
      if c = 0 then some ⟨a₄ - 1 + 1, ap, out⟩
      else (convert m n c ⟨l, z, w, long⟩ ap).bind fun r => some ⟨a₄ + 1, r.2, out ++ r.1⟩ := by
    unfold directive
    simp only [hrun₁, hrun₂, hrun₃, hrun₄, Option.bind_eq_bind, Option.bind_some, Option.pure_def]
  cases f₄ with
  | nil =>
    refine Or.inl ⟨hpieces.trans (hcut rfl), ?_⟩
    rw [List.length_nil] at hpos
    rw [hdir, show m a₄ = some 0 from hlater.str, Option.bind_some, if_pos rfl]
    congr 2
    omega
  | cons c g =>
    obtain ⟨hp, hng⟩ := hconv c g rfl
    refine Or.inr ⟨⟨l, z, w, long⟩, c, a₄ + 1, g, hpieces.trans hp, hn₃.read_lt, hng,
      hlater.trans (.next hlater.str), hlater.le, ?_⟩
    rw [hdir, hlater.str.2.1, Option.bind_some, if_neg hlater.str.1]
    cases convert m n c ⟨l, z, w, long⟩ ap with
    | none => rfl
    | some r => rfl

end Directive

-- ---------------------------------------------------------------------------
-- The loop
-- ---------------------------------------------------------------------------

section Loop

variable {m : Mapped} {a n fuel : Nat} {f : Text} {ap ap' : List (BitVec 32)} {out : List Text} {t : Text}

/-- The text up to the next `%`, or to the end. -/
def textOf (f : Text) : Text := f.takeWhile fun c => c ≠ 0 ∧ c ≠ chr '%'

def restOf (f : Text) : Text := f.dropWhile fun c => c ≠ 0 ∧ c ≠ chr '%'

theorem text_rest (f : Text) : textOf f ++ restOf f = f := List.takeWhile_append_dropWhile

theorem percent_notMem_textOf (f : Text) : chr '%' ∉ textOf f := by
  intro hc
  have := List.mem_takeWhile_imp hc
  exact (of_decide_eq_true this).2 rfl

/-- Behind the text stands a `%`, unless the format ends. -/
theorem restOf_cases (h : ∀ c ∈ f, c ≠ 0) : restOf f = [] ∨ ∃ r, restOf f = chr '%' :: r := by
  induction f with
  | nil => exact Or.inl rfl
  | cons c f ih =>
    by_cases hc : c = chr '%'
    · refine Or.inr ⟨f, ?_⟩
      rw [hc]
      exact List.dropWhile_cons_of_neg (by decide)
    · have htext : decide (c ≠ 0 ∧ c ≠ chr '%') = true := decide_eq_true ⟨h c List.mem_cons_self, hc⟩
      have hrest : restOf (c :: f) = restOf f := List.dropWhile_cons_of_pos htext
      rw [hrest]
      exact ih fun x hx => h x (List.mem_cons_of_mem c hx)

/-- The text of a round. -/
theorem formatFrom_text (h : CString m a f) (hn : f.length < n) :
    formatFrom m n (fuel + 1) ⟨a, ap, out⟩ =
      (m (a + (textOf f).length)).bind fun c =>
        if c = 0 then some ⟨a + (textOf f).length, ap, out ++ [textOf f]⟩
        else (m (a + (textOf f).length + 1)).bind fun c =>
          if c = chr '%' then
            formatFrom m n fuel ⟨a + (textOf f).length + 2, ap, out ++ [textOf f] ++ [[chr '%']]⟩
          else (directive m n ⟨a + (textOf f).length + 1, ap, out ++ [textOf f]⟩).bind (formatFrom m n fuel) := by
  have hcount : countWhile m (fun c => c ≠ 0 ∧ c ≠ chr '%') n a = some (textOf f).length :=
    h.countWhile (by decide) hn
  have hread : readBytes m a (textOf f).length = some (textOf f) :=
    CString.readBytes (g := restOf f) (by rwa [text_rest])
  rw [formatFrom, hcount]
  simp only [Option.bind_eq_bind, Option.bind_some, hread]
  rfl

/-- **The loop.** It puts out the pieces of the format, one by one. -/
theorem formatFrom_run (h : CString m a f) (hn : Scan.text.Narrow f) (hlen : f.length < n) (hfuel : f.length < fuel)
    (hprint : printAll m n (Scan.text.pieces f) ap = some (t, ap')) :
    ∃ s, formatFrom m n fuel ⟨a, ap, out⟩ = some s ∧ s.out.flatten = out.flatten ++ t ∧ s.ap = ap' := by
  induction fuel generalizing a f ap out t with
  | zero => exact absurd hfuel (Nat.not_lt_zero _)
  | succ fuel ih =>
    rw [formatFrom_text h hlen]
    have hrest : CString m (a + (textOf f).length) (restOf f) := h.dropWhile _
    have hlength : (textOf f).length + (restOf f).length = f.length := by
      rw [← List.length_append, text_rest]
    obtain ⟨hafter, hpieces⟩ := after_text (percent_notMem_textOf f)
    have hnarrow : Scan.text.Narrow (restOf f) := by
      have := narrow_append (show Scan.text.Narrow (textOf f ++ restOf f) by rwa [text_rest])
      rwa [hafter] at this
    rw [← text_rest f, pieces_append, hpieces, hafter] at hprint
    obtain ⟨t₁, hprint₁, rfl⟩ := printAll_text _ hprint
    have hflat : (out ++ [textOf f]).flatten = out.flatten ++ textOf f := by
      rw [List.flatten_append, List.flatten_singleton]
    rcases restOf_cases h.nonzero with hr | ⟨r, hr⟩
    · -- the end of the format
      rw [hr] at hrest hprint₁
      obtain ⟨rfl, rfl⟩ := Prod.mk.inj (Option.some.inj hprint₁)
      refine ⟨_, by rw [show m (a + (textOf f).length) = some 0 from hrest, Option.bind_some, if_pos rfl], ?_, rfl⟩
      rw [hflat, List.append_nil]
    · rw [hr] at hrest hprint₁ hnarrow hlength
      rw [List.length_cons] at hlength
      rw [hrest.2.1, Option.bind_some, if_neg (by decide), hrest.2.2.first, Option.bind_some]
      have hp : Scan.text.pieces (chr '%' :: r) = Scan.percent.pieces r := rfl
      rw [hp] at hprint₁
      by_cases hc : r.headD 0 = chr '%'
      · -- `%%`
        rw [if_pos hc]
        obtain ⟨g, rfl⟩ : ∃ g, r = chr '%' :: g := by
          cases r with
          | nil => exact absurd hc (by decide)
          | cons c g => exact ⟨g, by rw [show c = chr '%' from hc]⟩
        obtain ⟨o, ap₁, t₂, hpercent, hprint₂, rfl⟩ := printAll_cons hprint₁
        obtain ⟨rfl, rfl⟩ := Prod.mk.inj (Option.some.inj hpercent)
        rw [List.length_cons] at hlength
        obtain ⟨s, hrun, hout, hap⟩ := ih hrest.2.2.2.2 hnarrow.2.2 (by omega) (by omega) hprint₂
        refine ⟨s, hrun, ?_, hap⟩
        rw [hout, List.flatten_append, hflat, List.append_assoc, List.append_assoc]
      · rw [if_neg hc]
        have hhead : ∀ c, r.head? = some c → c ≠ chr '%' := by
          intro c hcr hcp
          rw [List.headD_eq_head?_getD, hcr] at hc
          exact hc hcp
        have hlt : r.length < n := by omega
        rcases directive_run hrest.2.2 (Nat.succ_pos _) hhead hnarrow.2 hlt ap (out ++ [textOf f]) with ⟨hcut, hdir⟩ | ⟨d, c, a', g, hconv, -, hng, hlater, hless, hdir⟩
        · -- the format ends in the directive: a round follows in which nothing is left
          rw [hcut] at hprint₁
          obtain ⟨rfl, rfl⟩ := Prod.mk.inj (Option.some.inj hprint₁)
          have hend : CString m (a + (textOf f).length + 1 + r.length) [] :=
            CString.drop (by rw [List.append_nil]; exact hrest.2.2)
          have hempty : Scan.text.Narrow [] := show (0 : Nat) < 2 ^ 31 - 70 by decide
          obtain ⟨s, hrun, hout, hap⟩ := ih hend hempty (show 0 < n by omega) (show 0 < fuel by omega) rfl
          refine ⟨s, by rw [hdir]; exact hrun, ?_, hap⟩
          rw [hout, hflat, List.append_assoc]
        · rw [hconv] at hprint₁
          obtain ⟨o, ap₁, t₂, hpiece, hprint₂, rfl⟩ := printAll_cons hprint₁
          obtain ⟨s, hrun, hout, hap⟩ := ih hlater.str hng (by omega) (by omega) hprint₂
          refine ⟨s, ?_, ?_, hap⟩
          · rw [hdir, show convert m n c d ap = some (o, ap₁) from hpiece]
            exact hrun
          · rw [hout, List.flatten_append, hflat, List.append_assoc, List.append_assoc]

end Loop

-- ---------------------------------------------------------------------------
-- The conversions
-- ---------------------------------------------------------------------------

section Conversions

variable {m : Mapped} {c : BitVec 8} {d : Flags} {w : BitVec 32} {ap : List (BitVec 32)}

/-- The switch. -/
theorem convert_cases (c : BitVec 8) :
    (∃ base upcase, 1 < base ∧ ∀ m n d ap, convert m n c d ap = convertNum d base upcase ap) ∨
      ((c = chr 'd' ∨ c = chr 'D') ∧ ∀ m n d ap, convert m n c d ap = convertInt d ap) ∨
      (∀ m n d ap, convert m n c d ap = convertChar d ap) ∨
      (c = chr 's' ∧ ∀ m n d ap, convert m n c d ap = convertStr m n d ap) ∨
      ∀ d, (Piece.directive d c).takesArg = false := by
  by_cases hb : c = chr 'b'
  · exact Or.inl ⟨2, false, by decide, fun m n d ap => if_pos hb⟩
  by_cases hd : c = chr 'd' ∨ c = chr 'D'
  · exact Or.inr (Or.inl ⟨hd, fun m n d ap => (if_neg hb).trans (if_pos hd)⟩)
  by_cases ho : c = chr 'o' ∨ c = chr 'O'
  · exact Or.inl ⟨8, false, by decide, fun m n d ap => (if_neg hb).trans ((if_neg hd).trans (if_pos ho))⟩
  by_cases hu : c = chr 'u' ∨ c = chr 'U'
  · exact Or.inl ⟨10, false, by decide, fun m n d ap =>
      (if_neg hb).trans ((if_neg hd).trans ((if_neg ho).trans (if_pos hu)))⟩
  by_cases hx : c = chr 'x'
  · exact Or.inl ⟨16, false, by decide, fun m n d ap =>
      (if_neg hb).trans ((if_neg hd).trans ((if_neg ho).trans ((if_neg hu).trans (if_pos hx))))⟩
  by_cases hX : c = chr 'X'
  · exact Or.inl ⟨16, true, by decide, fun m n d ap =>
      (if_neg hb).trans ((if_neg hd).trans ((if_neg ho).trans ((if_neg hu).trans ((if_neg hx).trans (if_pos hX)))))⟩
  have hnum : ∀ m n d ap, convert m n c d ap = if c = chr 'c' then convertChar d ap
      else if c = chr 's' then convertStr m n d ap else some ([[c]], ap) := fun m n d ap =>
    (if_neg hb).trans ((if_neg hd).trans ((if_neg ho).trans ((if_neg hu).trans ((if_neg hx).trans (if_neg hX)))))
  by_cases hc : c = chr 'c'
  · exact Or.inr (Or.inr (Or.inl fun m n d ap => (hnum m n d ap).trans (if_pos hc)))
  by_cases hs : c = chr 's'
  · exact Or.inr (Or.inr (Or.inr (Or.inl ⟨hs, fun m n d ap =>
      (hnum m n d ap).trans ((if_neg hc).trans (if_pos hs))⟩)))
  refine Or.inr (Or.inr (Or.inr (Or.inr fun d => decide_eq_false fun hmem => ?_)))
  rw [not_or] at hd ho hu
  simp only [List.map_cons, List.map_nil, List.mem_cons, List.not_mem_nil, or_false, hb, hd.1, hd.2, ho.1, ho.2,
    hu.1, hu.2, hx, hX, hc, hs] at hmem

theorem vaNum_cons (long : Bool) (w : BitVec 32) (ap : List (BitVec 32)) : vaNum long (w :: ap) = some (w, ap) := by
  cases long with
  | true => rfl
  | false => rfl

theorem convertNum_run {base : Nat} (hbase : 1 < base) (upcase : Bool) (hd : d.width < 2 ^ 31 - 70) (w : BitVec 32)
    (ap : List (BitVec 32)) :
    convertNum d base upcase (w :: ap) =
      some ([numText false d.ladjust d.padc (digitText base upcase w.toNat) d.width], ap) := by
  unfold convertNum
  rw [vaNum_cons]
  show (printNum w.toNat base false d.width d.ladjust d.padc upcase).bind _ = _
  rw [printNum_run hbase w.isLt false hd]
  rfl

/-- The text of an `int`. -/
def intText (d : Flags) (w : BitVec 32) : Text :=
  numText (decide (w.toInt < 0)) d.ladjust d.padc (digitText 10 false w.toInt.natAbs) d.width

theorem convertInt_run (hd : d.width < 2 ^ 31 - 70) (w : BitVec 32) (ap : List (BitVec 32)) :
    convertInt d (w :: ap) = some ([intText d w], ap) := by
  have hlt := w.isLt
  unfold convertInt intText
  rw [vaNum_cons]
  by_cases hneg : w.toInt < 0
  · have habs : (-w).toNat = w.toInt.natAbs := by
      rw [BitVec.toNat_neg]
      rw [BitVec.toInt_eq_toNat_cond] at hneg ⊢
      split_ifs at hneg ⊢ <;> omega
    rw [decide_eq_true hneg, ← habs]
    simp only [Option.bind_eq_bind, Option.bind_some, if_pos hneg,
      printNum_run (by decide : 1 < 10) (-w).isLt true hd d.ladjust d.padc false]
    rfl
  · have habs : w.toNat = w.toInt.natAbs := by
      rw [BitVec.toInt_eq_toNat_cond] at hneg ⊢
      split_ifs at hneg ⊢ <;> omega
    rw [decide_eq_false hneg, ← habs]
    simp only [Option.bind_eq_bind, Option.bind_some, if_neg hneg,
      printNum_run (by decide : 1 < 10) w.isLt false hd d.ladjust d.padc false]
    rfl

theorem printStr_run {s : Nat} {t : Text} (ht : CString m s t) (length : Nat) (ladjust : Bool) :
    ∃ out, ∀ n, t.length < n → printStr m n s length ladjust = some out := by
  have hread : readBytes m s t.length = some t := CString.readBytes (g := []) (by rwa [List.append_nil])
  obtain ⟨len, hlen⟩ : ∃ len, len = if length < t.length then t.length else length := ⟨_, rfl⟩
  refine ⟨if ladjust then t :: spaces t.length len else spaces 0 (len - t.length) ++ [t], fun n hn => ?_⟩
  have hcount : countWhile m (fun c => c ≠ 0) n s = some t.length := by
    rw [ht.countWhile (by decide) hn, List.takeWhile_eq_self_iff.mpr fun c hc => decide_eq_true (ht.nonzero c hc)]
  unfold printStr
  rw [hcount]
  simp only [Option.bind_eq_bind, Option.bind_some, hread, Option.pure_def, ← hlen]

/-- A directive takes its argument, if it has one. -/
theorem convert_run (hd : d.width < 2 ^ 31 - 70) (ht : (Piece.directive d c).takesArg = true)
    (hw : (Piece.directive d c).Takes m w) :
    ∃ out N, ∀ n, N ≤ n → ∀ ap, convert m n c d (w :: ap) = some (out, ap) := by
  rcases convert_cases c with ⟨base, upcase, hbase, h⟩ | ⟨-, h⟩ | h | ⟨hs, h⟩ | hno
  · exact ⟨_, 0, fun n _ ap => (h m n d _).trans (convertNum_run hbase upcase hd w ap)⟩
  · exact ⟨_, 0, fun n _ ap => (h m n d _).trans (convertInt_run hd w ap)⟩
  · exact ⟨_, 0, fun n _ ap => (h m n d _).trans rfl⟩
  · obtain ⟨t, ht⟩ := hw hs
    obtain ⟨out, hrun⟩ := printStr_run ht d.width d.ladjust
    refine ⟨out, t.length + 1, fun n hn ap => (h m n d _).trans ?_⟩
    show (printStr m n w.toNat d.width d.ladjust).bind _ = _
    rw [hrun n hn]
    rfl
  · rw [hno d] at ht
    exact absurd ht Bool.false_ne_true

/-- A piece that takes no argument leaves all arguments. -/
theorem print_none (p : Piece) (hp : p.takesArg = false) : ∃ out, ∀ m n ap, p.print m n ap = some (out, ap) := by
  cases p with
  | char c => exact ⟨_, fun m n ap => rfl⟩
  | percent => exact ⟨_, fun m n ap => rfl⟩
  | directive d c =>
    refine ⟨[[c]], fun m n ap => ?_⟩
    have hnot : ∀ x ∈ ['b', 'd', 'D', 'o', 'O', 'u', 'U', 'x', 'X', 'c', 's'].map chr, c ≠ x :=
      fun x hx hc => of_decide_eq_false hp (hc ▸ hx)
    simp only [List.map_cons, List.map_nil, List.forall_mem_cons] at hnot
    obtain ⟨hb, hd, hD, ho, hO, hu, hU, hx, hX, hc, hs, -⟩ := hnot
    show convert m n c d ap = _
    unfold convert
    rw [if_neg hb, if_neg (not_or.mpr ⟨hd, hD⟩), if_neg (not_or.mpr ⟨ho, hO⟩), if_neg (not_or.mpr ⟨hu, hU⟩),
      if_neg hx, if_neg hX, if_neg hc, if_neg hs]

end Conversions

-- ---------------------------------------------------------------------------
-- Whole formats
-- ---------------------------------------------------------------------------

section Formats

variable {m : Mapped} {a : Nat} {f g : Text} {ap ap' rest : List (BitVec 32)} {ps qs : List Piece} {q : Scan}

/-- The width of a directive is the width read before its last character. -/
theorem step_width {d : Flags} {c c' : BitVec 8} (h : Piece.directive d c' ∈ (q.step c).2) : d.width = q.read := by
  have hlength : ∀ l z w, Piece.directive d c' ∈ (lengthStep l z w c).2 → d.width = w := by
    intro l z w hmem
    unfold lengthStep at hmem
    split_ifs at hmem
    · cases hmem
    · rw [(Piece.directive.inj (List.mem_singleton.mp hmem)).1]
  have hwidth : ∀ l z w, Piece.directive d c' ∈ (widthStep l z w c).2 → d.width = w := by
    intro l z w hmem
    unfold widthStep at hmem
    split_ifs at hmem
    · cases hmem
    · exact hlength l z w hmem
  have hflag : ∀ l, Piece.directive d c' ∈ (flagStep l c).2 → d.width = 0 := by
    intro l hmem
    unfold flagStep at hmem
    split_ifs at hmem
    · cases hmem
    · exact hwidth l false 0 hmem
  cases q with
  | text =>
    change Piece.directive d c' ∈ (if c = chr '%' then (Scan.percent, []) else (Scan.text, [Piece.char c])).2 at h
    split_ifs at h
    · cases h
    · cases List.mem_singleton.mp h
  | percent =>
    change Piece.directive d c' ∈ (if c = chr '%' then (Scan.text, [Piece.percent])
      else if c = chr '-' then (Scan.flags true, []) else flagStep false c).2 at h
    split_ifs at h
    · cases List.mem_singleton.mp h
    · cases h
    · exact hflag false h
  | flags l => exact hflag l h
  | width l z w => exact hwidth l z w h
  | long l z w => rw [(Piece.directive.inj (List.mem_singleton.mp h)).1]; rfl

theorem pieces_width {d : Flags} {c : BitVec 8} (hn : q.Narrow f) (h : Piece.directive d c ∈ q.pieces f) :
    d.width < 2 ^ 31 - 70 := by
  induction f generalizing q with
  | nil => cases h
  | cons x f ih =>
    rcases List.mem_append.mp h with h | h
    · rw [step_width h]
      exact hn.read_lt
    · exact ih hn.2 h

/-- One argument for each piece that takes one. -/
theorem Supplies.length (h : Supplies m ps ap) : ap.length = ps.countP Piece.takesArg := by
  induction ps generalizing ap with
  | nil => rw [show ap = [] from h]; rfl
  | cons p ps ih =>
    unfold Supplies at h
    split_ifs at h with hp
    · obtain ⟨w, ap', rfl, -, hrest⟩ := h
      rw [List.countP_cons_of_pos hp, List.length_cons, ih hrest]
    · rw [List.countP_cons_of_neg hp, ih h]

theorem Supplies.append (h : Supplies m ps ap) (h' : Supplies m qs ap') : Supplies m (ps ++ qs) (ap ++ ap') := by
  induction ps generalizing ap with
  | nil => rw [show ap = [] from h]; exact h'
  | cons p ps ih =>
    unfold Supplies at h
    rw [List.cons_append]
    unfold Supplies
    split_ifs at h ⊢ with hp
    · obtain ⟨w, ap₁, rfl, hw, hrest⟩ := h
      exact ⟨w, ap₁ ++ ap', rfl, hw, ih hrest⟩
    · exact ih h

/-- The pieces use their arguments, and leave what comes behind them. -/
theorem printAll_run (hwidth : ∀ d c, Piece.directive d c ∈ ps → d.width < 2 ^ 31 - 70) (h : Supplies m ps ap) :
    ∃ t N, ∀ n, N ≤ n → ∀ rest, printAll m n ps (ap ++ rest) = some (t, rest) := by
  induction ps generalizing ap with
  | nil =>
    rw [show ap = [] from h]
    exact ⟨[], 0, fun n _ rest => rfl⟩
  | cons p ps ih =>
    unfold Supplies at h
    split_ifs at h with hp
    · obtain ⟨w, ap', rfl, hw, hrest⟩ := h
      obtain ⟨t, N, hrun⟩ := ih (fun d c hd => hwidth d c (List.mem_cons_of_mem p hd)) hrest
      cases p with
      | char c => exact absurd hp Bool.false_ne_true
      | percent => exact absurd hp Bool.false_ne_true
      | directive d c =>
        obtain ⟨out, N', hconv⟩ := convert_run (hwidth d c List.mem_cons_self) hp hw
        exact ⟨out.flatten ++ t, max N N', fun n hn rest =>
          printAll_cons_some (hconv n (by omega) _) (hrun n (by omega) rest)⟩
    · obtain ⟨t, N, hrun⟩ := ih (fun d c hd => hwidth d c (List.mem_cons_of_mem p hd)) h
      obtain ⟨out, hout⟩ := print_none p (Bool.eq_false_iff.mpr hp)
      exact ⟨out.flatten ++ t, N, fun n hn rest => printAll_cons_some (hout m n _) (hrun n hn rest)⟩

/-- `vprintfmt` returns, has put out `text`, and has left the arguments `rest`. -/
def Prints (m : Mapped) (fmt : Nat) (ap : List (BitVec 32)) (text : Text) (rest : List (BitVec 32)) : Prop :=
  ∃ N, ∀ n, N ≤ n → ∃ s, vprintfmt m n fmt ap = some s ∧ s.out.flatten = text ∧ s.ap = rest

/-- What the pieces of a format say is what is printed. -/
theorem prints_of_printAll (h : CString m a f) (hn : Scan.text.Narrow f) {t : Text} (N : Nat)
    (hrun : ∀ n, N ≤ n → printAll m n (Scan.text.pieces f) ap = some (t, rest)) : Prints m a ap t rest := by
  refine ⟨max N (f.length + 1), fun n hle => ?_⟩
  have hlen : f.length < n := by omega
  exact formatFrom_run h hn hlen hlen (hrun n (by omega))

end Formats

/-- **vprintfmt.** For every string as a format, also one that ends inside a directive, and
with the arguments it takes, it returns without a read that is not in the format or a string
argument: nothing is mapped behind them, for all that is assumed here. It uses one argument
for each conversion that takes one, copies text, and prints a format that is put together
from two, the first of them whole, as it prints the two. -/
theorem vprintfmt_compositional (m : Mapped) :
    (∀ a f ap, CString m a f → Scan.text.Narrow f → Supplies m (Scan.text.pieces f) ap →
      ap.length = conversions f ∧
      ∃ t, (∀ rest, Prints m a (ap ++ rest) t rest) ∧ (chr '%' ∉ f → t = f)) ∧
    ∀ a₁ a₂ a₃ f g ap ap', CString m a₁ f → CString m a₂ g → CString m a₃ (f ++ g) → Whole f →
      Scan.text.Narrow f → Scan.text.Narrow g → Supplies m (Scan.text.pieces f) ap →
      Supplies m (Scan.text.pieces g) ap' →
      ∃ t t', Prints m a₁ ap t [] ∧ Prints m a₂ ap' t' [] ∧ Prints m a₃ (ap ++ ap') (t ++ t') [] := by
  constructor
  · intro a f ap h hn hsup
    obtain ⟨t, N, hrun⟩ := printAll_run (fun d c hd => pieces_width hn hd) hsup
    refine ⟨hsup.length, t, fun rest => prints_of_printAll h hn N fun n hle => hrun n hle rest, fun htext => ?_⟩
    have hpieces : Scan.text.pieces f = f.map Piece.char ++ [] := by
      rw [(after_text htext).2, List.append_nil]
    have hcopy := hrun N (Nat.le_refl N) []
    rw [hpieces] at hcopy
    obtain ⟨t₁, hnil, rfl⟩ := printAll_text f hcopy
    rw [(Prod.mk.inj (Option.some.inj hnil)).1.symm, List.append_nil]
  · intro a₁ a₂ a₃ f g ap ap' h₁ h₂ h₃ hwhole hf hg hsup hsup'
    obtain ⟨t, N, hrun⟩ := printAll_run (fun d c hd => pieces_width hf hd) hsup
    obtain ⟨t', N', hrun'⟩ := printAll_run (fun d c hd => pieces_width hg hd) hsup'
    have hpieces : Scan.text.pieces (f ++ g) = Scan.text.pieces f ++ Scan.text.pieces g := by
      rw [pieces_append, hwhole]
    have hn : Scan.text.Narrow (f ++ g) := narrow_of_append hf (by rwa [hwhole])
    refine ⟨t, t', prints_of_printAll h₁ hf N fun n hle => ?_, prints_of_printAll h₂ hg N' fun n hle => ?_,
      prints_of_printAll h₃ hn (max N N') fun n hle => ?_⟩
    · have := hrun n hle []
      rwa [List.append_nil] at this
    · have := hrun' n hle []
      rwa [List.append_nil] at this
    · have hlast := hrun' n (by omega) []
      rw [List.append_nil] at hlast
      rw [hpieces]
      exact printAll_append (hrun n (by omega) ap') hlast

/-- A string at an address, in memory that holds other things as well. -/
def stringAt (a : Nat) (s : List Char) (m : Mapped) : Mapped := fun x =>
  if a ≤ x ∧ x ≤ a + s.length then some ((s.map chr).getD (x - a) 0) else m x

/-- Two formats with a directive each, and the two in one. -/
def twoFormats : Mapped :=
  stringAt 100 ['%', 'd', ';'] (stringAt 200 ['%', 'c'] (stringAt 300 ['%', 'd', ';', '%', 'c'] fun _ => none))

theorem vprintfmt_compositional_two :
    ∃ t t', Prints twoFormats 100 [5#32] t [] ∧ Prints twoFormats 200 [65#32] t' [] ∧
      Prints twoFormats 300 [5#32, 65#32] (t ++ t') [] := by
  have hd : CString twoFormats 100 (['%', 'd', ';'].map chr) :=
    ⟨by decide, by decide, by decide, by decide, by decide, by decide, show twoFormats 103 = some 0 by decide⟩
  have hc : CString twoFormats 200 (['%', 'c'].map chr) :=
    ⟨by decide, by decide, by decide, by decide, show twoFormats 202 = some 0 by decide⟩
  have hdc : CString twoFormats 300 (['%', 'd', ';'].map chr ++ ['%', 'c'].map chr) :=
    ⟨by decide, by decide, by decide, by decide, by decide, by decide, by decide, by decide, by decide, by decide,
      show twoFormats 305 = some 0 by decide⟩
  have hpos : 0 < 2 ^ 31 - 70 := by decide
  exact (vprintfmt_compositional twoFormats).2 100 200 300 _ _ [5#32] [65#32] hd hc hdc rfl
    ⟨hpos, hpos, hpos, hpos⟩ ⟨hpos, hpos, hpos⟩
    ⟨5#32, [], rfl, fun h => absurd h (by decide), rfl⟩ ⟨65#32, [], rfl, fun h => absurd h (by decide), rfl⟩

-- ---------------------------------------------------------------------------
-- Numbers that are printed and read back
-- ---------------------------------------------------------------------------

/-- Without the spaces in front and behind. -/
def trim (text : Text) : Text :=
  ((text.dropWhile fun c => c = chr ' ').reverse.dropWhile fun c => c = chr ' ').reverse

/-- The number that a text denotes: a sign, if there is one, and decimal digits. -/
def readInt (text : Text) : Option Int :=
  if (trim text).head? = some (chr '-') then (readNat 10 (trim text).tail).map fun n : Nat => -(n : Int)
  else (readNat 10 (trim text)).map fun n : Nat => (n : Int)

section ReadBack

variable {t ds : Text} {k j : Nat}

theorem dropWhile_spaces (k : Nat) (h : ∀ c, t.head? = some c → c ≠ chr ' ') :
    (List.replicate k (chr ' ') ++ t).dropWhile (fun c => c = chr ' ') = t := by
  induction k with
  | zero =>
    cases t with
    | nil => rfl
    | cons c t => exact List.dropWhile_cons_of_neg (by rw [decide_eq_true_eq]; exact h c rfl)
  | succ k ih =>
    rw [List.replicate_succ, List.cons_append, List.dropWhile_cons_of_pos (by decide)]
    exact ih

theorem trim_spaces (k j : Nat) (hfirst : ∀ c, t.head? = some c → c ≠ chr ' ')
    (hlast : ∀ c, t.getLast? = some c → c ≠ chr ' ') (hne : t ≠ []) :
    trim (List.replicate k (chr ' ') ++ t ++ List.replicate j (chr ' ')) = t := by
  have hhead : ∀ c, (t ++ List.replicate j (chr ' ')).head? = some c → c ≠ chr ' ' := by
    intro c hc
    rw [List.head?_append_of_ne_nil _ hne] at hc
    exact hfirst c hc
  unfold trim
  rw [List.append_assoc, dropWhile_spaces k hhead, List.reverse_append, List.reverse_replicate,
    dropWhile_spaces j (fun c hc => hlast c (by rwa [List.head?_reverse] at hc)), List.reverse_reverse]

/-- Digits are no spaces and no signs. -/
theorem digitText_mem {u : Nat} {c : BitVec 8} (h : c ∈ digitText 10 false u) : c ≠ chr ' ' ∧ c ≠ chr '-' := by
  unfold digitText at h
  rw [List.mem_reverse, List.mem_map] at h
  obtain ⟨d, hd, rfl⟩ := h
  have hall : ∀ d : Fin 10, digitChar false d ≠ chr ' ' ∧ digitChar false d ≠ chr '-' := by decide
  exact hall ⟨d, digitsOf_lt (by decide) d hd⟩

/-- Zeros in front do not matter. -/
theorem readNat_zeros (k : Nat) (hne : ds ≠ []) : readNat 10 (List.replicate k (chr '0') ++ ds) = readNat 10 ds := by
  have hfold : (List.replicate k (chr '0')).foldlM (readDigit 10) 0 = some 0 := by
    induction k with
    | zero => rfl
    | succ k ih =>
      rw [List.replicate_succ, List.foldlM_cons]
      exact ih
  unfold readNat
  rw [if_neg (List.append_ne_nil_of_right_ne_nil _ hne), if_neg hne, List.foldlM_append, hfold]
  rfl

/-- A number as it is printed: spaces, the sign, zeros, the digits, and spaces. -/
theorem numText_shape (neg ladjust : Bool) {padc : BitVec 8} (hpadc : padc = chr ' ' ∨ padc = chr '0') (ds : Text)
    (length : Nat) : ∃ k z j, numText neg ladjust padc ds length =
      List.replicate k (chr ' ') ++ (signText neg ++ List.replicate z (chr '0') ++ ds) ++ List.replicate j (chr ' ') := by
  unfold numText
  split_ifs with hl hz
  · refine ⟨0, 0, length - (ds ++ signText neg).length, ?_⟩
    rw [List.replicate_zero, List.replicate_zero, List.nil_append, List.append_nil]
    rfl
  · refine ⟨0, length - (ds ++ signText neg).length, 0, ?_⟩
    rw [List.replicate_zero, List.nil_append, List.append_nil, hz]
    rfl
  · refine ⟨length - (ds ++ signText neg).length, 0, 0, ?_⟩
    rw [hpadc.resolve_right hz, padding]
    simp only [List.replicate_zero, List.append_nil, List.append_assoc]

theorem readInt_numText (neg ladjust : Bool) {padc : BitVec 8} (hpadc : padc = chr ' ' ∨ padc = chr '0') (u length : Nat) :
    readInt (numText neg ladjust padc (digitText 10 false u) length) = some (if neg then -(u : Int) else u) := by
  obtain ⟨k, z, j, hshape⟩ := numText_shape neg ladjust hpadc (digitText 10 false u) length
  have hne := digitText_ne_nil 10 false u
  have hdigits : readNat 10 (List.replicate z (chr '0') ++ digitText 10 false u) = some u := by
    rw [readNat_zeros z hne, readNat_digits (by decide) (by decide)]
  have hmem : ∀ c ∈ List.replicate z (chr '0') ++ digitText 10 false u, c ≠ chr ' ' ∧ c ≠ chr '-' := by
    intro c hc
    rcases List.mem_append.mp hc with hc | hc
    · rw [List.eq_of_mem_replicate hc]
      decide
    · exact digitText_mem hc
  have hmem' : ∀ c ∈ signText neg ++ List.replicate z (chr '0') ++ digitText 10 false u, c ≠ chr ' ' := by
    intro c hc
    rw [List.append_assoc] at hc
    rcases List.mem_append.mp hc with hc | hc
    · cases neg with
      | true =>
        rw [List.mem_singleton.mp hc]
        decide
      | false => cases hc
    · exact (hmem c hc).1
  have htrim : trim (numText neg ladjust padc (digitText 10 false u) length) =
      signText neg ++ (List.replicate z (chr '0') ++ digitText 10 false u) := by
    rw [hshape, trim_spaces k j (fun c hc => hmem' c (List.mem_of_mem_head? hc))
      (fun c hc => hmem' c (List.mem_of_getLast? hc)) (List.append_ne_nil_of_right_ne_nil _ hne), List.append_assoc]
  unfold readInt
  rw [htrim]
  cases neg with
  | true =>
    show (if some (chr '-') = some (chr '-') then _ else _) = _
    rw [if_pos rfl]
    show (readNat 10 (List.replicate z (chr '0') ++ digitText 10 false u)).map _ = _
    rw [hdigits]
    rfl
  | false =>
    rw [signText, if_neg Bool.false_ne_true, List.nil_append, if_neg, hdigits]
    · rfl
    · exact fun hc => (hmem _ (List.mem_of_mem_head? hc)).2 rfl

/-- An `int` that is printed reads back, also the least one. -/
theorem readInt_intText (d : Flags) (w : BitVec 32) : readInt (intText d w) = some w.toInt := by
  have hpadc : d.padc = chr ' ' ∨ d.padc = chr '0' := by
    unfold Flags.padc
    split_ifs
    · exact Or.inr rfl
    · exact Or.inl rfl
  unfold intText
  rw [readInt_numText _ _ hpadc]
  by_cases hneg : w.toInt < 0
  · rw [decide_eq_true hneg, if_pos rfl]
    refine congrArg some ?_
    omega
  · rw [decide_eq_false hneg, if_neg Bool.false_ne_true]
    refine congrArg some ?_
    omega

end ReadBack

/-- **print_num.** It puts out one string, of the width or of the length of the number and its
sign: sign, digits and spaces with `ladjust`, sign, zeros and digits with `'0'`, and else spaces,
sign and digits. The digits read back, and no zero is in front of others. So the text of `%d`,
with any flags and any width, reads back as the `int` that is printed. -/
theorem print_num_right :
    (∀ u base neg length ladjust padc upcase, u < 2 ^ 32 → base = 2 ∨ base = 8 ∨ base = 10 ∨ base = 16 →
      length < 2 ^ 31 - 70 → padc = chr ' ' ∨ padc = chr '0' →
      ∃ ds, ds.length = numDigits base u ∧ readNat base ds = some u ∧ (ds.head? = some (chr '0') → ds = [chr '0']) ∧
        printNum u base neg length ladjust padc upcase = some (numText neg ladjust padc ds length) ∧
        (numText neg ladjust padc ds length).length = max length (numDigits base u + neg.toNat)) ∧
    ∀ m a f d c w rest, CString m a f → Scan.text.Narrow f → Scan.text.pieces f = [.directive d c] →
      c = chr 'd' ∨ c = chr 'D' → ∃ t, Prints m a (w :: rest) t rest ∧ readInt t = some w.toInt := by
  constructor
  · intro u base neg length ladjust padc upcase hu hbase hlen _
    have hlo : 1 < base := by omega
    have hhi : base ≤ 16 := by omega
    refine ⟨digitText base upcase u, digitText_length hlo upcase, readNat_digits hlo hhi upcase,
      digitText_head hlo hhi upcase, printNum_run hlo hu neg hlen ladjust padc upcase, ?_⟩
    rw [numText_length, digitText_length hlo]
    cases neg with
    | true => rfl
    | false => rfl
  · intro m a f d c w rest h hn hpieces hc
    have hd : d.width < 2 ^ 31 - 70 := pieces_width hn (hpieces ▸ List.mem_singleton.mpr rfl)
    refine ⟨intText d w, prints_of_printAll h hn 0 fun n _ => ?_, readInt_intText d w⟩
    have hconv : (Piece.directive d c).print m n (w :: rest) = some ([intText d w], rest) := by
      show convert m n c d (w :: rest) = _
      unfold convert
      rw [if_neg (by rcases hc with rfl | rfl <;> decide), if_pos hc, convertInt_run hd]
    have hprint := printAll_cons_some hconv (show printAll m n [] rest = some ([], rest) from rfl)
    rw [hpieces, hprint, List.flatten_singleton, List.append_nil]

/-- `%5d` with the least `int`. -/
theorem print_num_right_least :
    ∃ t, Prints (stringAt 100 ['%', '5', 'd'] fun _ => none) 100 [0x80000000#32] t [] ∧
      readInt t = some (-2147483648) := by
  have h : CString (stringAt 100 ['%', '5', 'd'] fun _ => none) 100 (['%', '5', 'd'].map chr) :=
    ⟨by decide, by decide, by decide, by decide, by decide, by decide,
      show stringAt 100 ['%', '5', 'd'] (fun _ => none) 103 = some 0 by decide⟩
  have hn : Scan.text.Narrow (['%', '5', 'd'].map chr) :=
    ⟨by decide, by decide, by decide, show 0 < 2 ^ 31 - 70 by decide⟩
  exact print_num_right.2 _ 100 _ ⟨false, false, 5, false⟩ (chr 'd') 0x80000000#32 [] h hn (by decide) (Or.inl rfl)

end Mos.Base
