import Mathlib.Data.Nat.Digits.Lemmas
import Mos.Base.Print

/-!
# MOS on RISC-V — print_num

`print_num` writes the digits from the last to the first, a sign, and padding behind or
below the sign, and then reverses what has to be reversed.

Main results:

* `printNum_run` — the string it puts out, for every number, width and combination of flags;
* `readNat_digits` — the digits in it are those of the number, and read back as the number.
-/

namespace Mos.Base

open Mos.Lib

-- ---------------------------------------------------------------------------
-- Digits and how they are read
-- ---------------------------------------------------------------------------

/-- The digits of `u`, from the last to the first. There is always one. -/
def digitsOf (base u : Nat) : List Nat := u % base :: Nat.digits base (u / base)

/-- The number of digits of `u`: 1 for 0. -/
def numDigits (base u : Nat) : Nat := if u = 0 then 1 else (Nat.digits base u).length

/-- The value of a digit, in either case. -/
def digitValue (c : BitVec 8) : Option Nat :=
  if chr '0' ≤ c ∧ c ≤ chr '9' then some (c.toNat - '0'.toNat)
  else if chr 'a' ≤ c ∧ c ≤ chr 'z' then some (c.toNat - 'a'.toNat + 10)
  else if chr 'A' ≤ c ∧ c ≤ chr 'Z' then some (c.toNat - 'A'.toNat + 10)
  else none

/-- A digit of the base, behind digits of value `acc`. -/
def readDigit (base acc : Nat) (c : BitVec 8) : Option Nat :=
  (digitValue c).bind fun d => if d < base then some (acc * base + d) else none

/-- The number that a text of digits denotes. -/
def readNat (base : Nat) (text : Text) : Option Nat :=
  if text = [] then none else text.foldlM (readDigit base) 0

variable {base u : Nat}

theorem digitsOf_zero (base : Nat) : digitsOf base 0 = [0] := by
  unfold digitsOf
  rw [Nat.zero_mod, Nat.zero_div, Nat.digits_zero]

theorem digitsOf_pos (hbase : 1 < base) (hu : u ≠ 0) : digitsOf base u = Nat.digits base u :=
  (Nat.digits_def' hbase (Nat.pos_of_ne_zero hu)).symm

theorem digitsOf_length (hbase : 1 < base) : (digitsOf base u).length = numDigits base u := by
  unfold numDigits
  by_cases hu : u = 0
  · rw [if_pos hu, hu, digitsOf_zero base]
    rfl
  · rw [if_neg hu, digitsOf_pos hbase hu]

theorem ofDigits_digitsOf : Nat.ofDigits base (digitsOf base u) = u := by
  unfold digitsOf
  rw [Nat.ofDigits_cons, Nat.ofDigits_digits]
  exact Nat.mod_add_div u base

theorem digitsOf_lt (hbase : 1 < base) : ∀ d ∈ digitsOf base u, d < base := by
  intro d hd
  rcases List.mem_cons.mp hd with rfl | hd
  · exact Nat.mod_lt u (Nat.lt_of_succ_lt hbase)
  · exact Nat.digits_lt_base hbase hd

/-- A word has at most 32 digits. -/
theorem digitsOf_length_le (hbase : 1 < base) (hu : u < 2 ^ 32) : (digitsOf base u).length ≤ 32 := by
  by_cases h0 : u = 0
  · rw [h0, digitsOf_zero base]
    decide
  · rw [digitsOf_pos hbase h0, Nat.digits_length_le_iff hbase]
    exact Nat.lt_of_lt_of_le hu (Nat.pow_le_pow_left hbase 32)

theorem digitValue_digitChar (upcase : Bool) {d : Nat} (hd : d < 16) :
    digitValue (digitChar upcase d) = some d := by
  have hall : ∀ up : Bool, ∀ d : Fin 16, digitValue (digitChar up d) = some d.val := by decide
  exact hall upcase ⟨d, hd⟩

/-- Only the digit 0 is printed as 0. -/
theorem digitChar_zero (upcase : Bool) {d : Nat} (hd : d < 16) (h : digitChar upcase d = chr '0') : d = 0 := by
  have hval := digitValue_digitChar upcase hd
  rw [h] at hval
  exact (Option.some.inj hval).symm

/-- The digits `ds`, from the last to the first, behind digits of value `acc`. -/
theorem foldlM_readDigit (hbase : base ≤ 16) (upcase : Bool) (acc : Nat) {ds : List Nat} (hds : ∀ d ∈ ds, d < base) :
    ((ds.map (digitChar upcase)).reverse).foldlM (readDigit base) acc =
      some (acc * base ^ ds.length + Nat.ofDigits base ds) := by
  induction ds with
  | nil =>
    rw [List.length_nil, Nat.pow_zero, Nat.mul_one]
    rfl
  | cons d ds ih =>
    have hd := hds d List.mem_cons_self
    rw [List.map_cons, List.reverse_cons, List.foldlM_append, ih fun x hx => hds x (List.mem_cons_of_mem d hx)]
    simp only [List.foldlM_cons, List.foldlM_nil, Option.bind_eq_bind, Option.bind_some, readDigit,
      digitValue_digitChar upcase (Nat.lt_of_lt_of_le hd hbase), if_pos hd, Option.pure_def]
    rw [List.length_cons, Nat.ofDigits_cons, Nat.pow_succ]
    refine congrArg some ?_
    ring

/-- The digits that are printed. -/
def digitText (base : Nat) (upcase : Bool) (u : Nat) : Text := ((digitsOf base u).map (digitChar upcase)).reverse

theorem digitText_length (hbase : 1 < base) (upcase : Bool) : (digitText base upcase u).length = numDigits base u := by
  unfold digitText
  rw [List.length_reverse, List.length_map, digitsOf_length hbase]

theorem digitText_ne_nil (base : Nat) (upcase : Bool) (u : Nat) : digitText base upcase u ≠ [] := by
  unfold digitText digitsOf
  rw [List.map_cons, List.reverse_cons]
  exact List.append_ne_nil_of_right_ne_nil _ (List.cons_ne_nil _ _)

/-- The digits read back as the number. -/
theorem readNat_digits (hbase : 1 < base) (hbase' : base ≤ 16) (upcase : Bool) :
    readNat base (digitText base upcase u) = some u := by
  unfold readNat
  rw [if_neg (digitText_ne_nil base upcase u)]
  unfold digitText
  rw [foldlM_readDigit hbase' upcase 0 (digitsOf_lt hbase), ofDigits_digitsOf, Nat.zero_mul, Nat.zero_add]

/-- There is no zero in front of other digits. -/
theorem digitText_head (hbase : 1 < base) (hbase' : base ≤ 16) (upcase : Bool)
    (h : (digitText base upcase u).head? = some (chr '0')) : digitText base upcase u = [chr '0'] := by
  by_cases hu : u = 0
  · rw [hu, digitText, digitsOf_zero base]
    cases upcase with
    | true => rfl
    | false => rfl
  · unfold digitText at h
    rw [digitsOf_pos hbase hu, List.head?_reverse, List.getLast?_map,
      List.getLast?_eq_some_getLast (Nat.digits_ne_nil_iff_ne_zero.mpr hu)] at h
    have hlast := Option.some.inj h
    have hmem := List.getLast_mem (Nat.digits_ne_nil_iff_ne_zero (b := base).mpr hu)
    have hlt := Nat.lt_of_lt_of_le (Nat.digits_lt_base hbase hmem) hbase'
    exact absurd (digitChar_zero upcase hlt hlast) (Nat.getLast_digit_ne_zero base hu)

-- ---------------------------------------------------------------------------
-- The steps of print_num
-- ---------------------------------------------------------------------------

/-- The loop has written a part of `text`, and will write the rest. -/
def DigitInv (base : Nat) (upcase : Bool) (cap : Nat) (text : Text) (s : Digits) : Prop :=
  s.buf.cap = cap ∧ ∃ l, s.buf.Holds l ∧ s.p = l.length ∧
    l ++ (Nat.digits base s.u).map (digitChar upcase) = text

theorem digitRound_some (base : Nat) (upcase : Bool) {cap : Nat} {l : Text} {s : Digits} (hcap : s.buf.cap = cap)
    (hheld : s.buf.Holds l) (hp : s.p = l.length) (hroom : l.length < cap) :
    ∃ buf, digitRound base upcase s = some ⟨s.u / base, buf, s.p + 1⟩ ∧ buf.cap = cap ∧
      buf.Holds (l ++ [digitChar upcase (s.u % base)]) := by
  obtain ⟨buf, hstore, hcap', hheld'⟩ := hheld.append (digitChar upcase (s.u % base)) (by omega)
  refine ⟨buf, ?_, hcap'.trans hcap, hheld'⟩
  unfold digitRound
  rw [hp, hstore]
  rfl

theorem putDigits_run (hbase : 1 < base) (upcase : Bool) (hu : u < 2 ^ 32) {cap : Nat}
    (hcap : (digitsOf base u).length ≤ cap) :
    ∃ s, putDigits base upcase ⟨u, .empty cap, 0⟩ = some s ∧ s.buf.cap = cap ∧
      s.buf.Holds ((digitsOf base u).map (digitChar upcase)) ∧ s.p = (digitsOf base u).length := by
  have hlen : (digitsOf base u).length = (Nat.digits base (u / base)).length + 1 := rfl
  obtain ⟨buf, hfirst, hcap₁, hheld₁⟩ := digitRound_some base upcase
    (s := ⟨u, .empty cap, 0⟩) rfl (.empty cap) rfl (by show 0 < cap; omega)
  have hround : ∀ s, DigitInv base upcase cap ((digitsOf base u).map (digitChar upcase)) s → s.u ≠ 0 →
      ∃ s', digitRound base upcase s = some s' ∧
        DigitInv base upcase cap ((digitsOf base u).map (digitChar upcase)) s' ∧ s'.u < s.u := by
    rintro s ⟨hcap', l, hheld, hp, htext⟩ hne
    rw [Nat.digits_def' hbase (Nat.pos_of_ne_zero hne), List.map_cons] at htext
    have hroom := congrArg List.length htext
    rw [List.length_append, List.length_cons, List.length_map, List.length_map] at hroom
    obtain ⟨buf, hrun, hcap'', hheld'⟩ := digitRound_some base upcase hcap' hheld hp (by omega)
    refine ⟨_, hrun, ⟨hcap'', _, hheld', ?_, ?_⟩, Nat.div_lt_self (Nat.pos_of_ne_zero hne) hbase⟩
    · rw [List.length_append, List.length_singleton, hp]
    · rw [List.append_assoc]
      exact htext
  have hlt : u / base < 2 ^ 32 := Nat.lt_of_le_of_lt (Nat.div_le_self u base) hu
  obtain ⟨s, hloop, ⟨hcap', l, hheld, hp, htext⟩, hstop⟩ := loop_measure
    (DigitInv base upcase cap ((digitsOf base u).map (digitChar upcase))) Digits.u hround
    (s := ⟨u / base, buf, 1⟩) ⟨hcap₁, _, hheld₁, rfl, rfl⟩ hlt
  have h0 : s.u = 0 := Classical.not_not.mp hstop
  rw [h0, Nat.digits_zero, List.map_nil, List.append_nil] at htext
  rw [htext] at hheld hp
  refine ⟨s, ?_, hcap', hheld, hp.trans (List.length_map ..)⟩
  unfold putDigits
  rw [hfirst]
  exact hloop

/-- A minus sign, if there is one. -/
def signText (neg : Bool) : Text := if neg then [chr '-'] else []

theorem putSign_run {s : Digits} {l : Text} (neg : Bool) (hheld : s.buf.Holds l) (hp : s.p = l.length)
    (hroom : l.length < s.buf.cap) :
    ∃ s', putSign neg s = some s' ∧ s'.buf.cap = s.buf.cap ∧ s'.buf.Holds (l ++ signText neg) ∧
      s'.p = (l ++ signText neg).length := by
  cases neg with
  | false =>
    refine ⟨s, rfl, rfl, ?_, ?_⟩
    · exact (List.append_nil l).symm ▸ hheld
    · exact hp.trans (congrArg List.length (List.append_nil l).symm)
  | true =>
    obtain ⟨buf, hstore, hcap, hheld'⟩ := hheld.append (chr '-') hroom
    refine ⟨⟨s.u, buf, s.p + 1⟩, ?_, hcap, hheld', ?_⟩
    · unfold putSign
      rw [if_pos rfl, hp, hstore]
      rfl
    · rw [signText, if_pos rfl, List.length_append, List.length_singleton, hp]

/-- As many characters as the number and its sign leave room for. -/
def padding (neg : Bool) (ds : Text) (length : Nat) (c : BitVec 8) : Text :=
  List.replicate (length - (ds ++ signText neg).length) c

/-- What the buffer holds after the padding: the string, or its number, from the last character
to the first. -/
def padded (neg ladjust : Bool) (padc : BitVec 8) (ds : Text) (length : Nat) : Text :=
  if ladjust then ds ++ signText neg ++ padding neg ds length (chr ' ')
  else if padc = chr '0' then ds ++ padding neg ds length padc ++ signText neg
  else ds ++ signText neg ++ padding neg ds length padc

theorem putPadding_run {buf : Buffer (BitVec 8)} {ds : Text} (neg ladjust : Bool) (padc : BitVec 8) {length : Nat}
    (hheld : buf.Holds (ds ++ signText neg)) (hle : (ds ++ signText neg).length ≤ length) (hroom : length ≤ buf.cap)
    (hlen : length < 2 ^ 32) :
    ∃ buf', putPadding neg ladjust padc (ds ++ signText neg).length length buf = some buf' ∧
      buf'.cap = buf.cap ∧ buf'.Holds (padded neg ladjust padc ds length) := by
  have hspace : ∀ c, ∃ buf', buf.fill (2 ^ 32) (ds ++ signText neg).length length c = some buf' ∧
      buf'.cap = buf.cap ∧
      buf'.Holds (ds ++ signText neg ++ padding neg ds length c) :=
    fun c => hheld.fill c hroom hlen
  unfold putPadding padded
  cases ladjust with
  | true =>
    obtain ⟨buf', hfill, hheld'⟩ := hspace (chr ' ')
    refine ⟨buf', ?_, hheld'⟩
    show (if neg = true ∧ ¬ true = true ∧ chr ' ' = chr '0' then _ else _) = _
    rw [if_neg fun hc => hc.2.1 rfl]
    exact hfill
  | false =>
    by_cases hz : padc = chr '0'
    · cases neg with
      | false =>
        obtain ⟨buf', hfill, hcap, hheld'⟩ := hspace padc
        refine ⟨buf', hfill, hcap, ?_⟩
        rw [if_neg Bool.false_ne_true, if_pos hz]
        rw [signText, if_neg Bool.false_ne_true, List.append_nil] at hheld' ⊢
        exact hheld'
      | true =>
        -- the zeros take the place of the sign, which goes behind them
        rw [signText, if_pos rfl, List.length_append, List.length_singleton] at hle ⊢
        have hbase : buf.Holds ds := by
          rw [signText, if_pos rfl] at hheld
          exact hheld.take
        obtain ⟨buf₁, hfill, hcap₁, hheld₁⟩ := hbase.fill padc (show length - 1 ≤ buf.cap by omega)
          (show length - 1 < 2 ^ 32 by omega)
        have hl : (ds ++ List.replicate (length - 1 - ds.length) padc).length = length - 1 := by
          rw [List.length_append, List.length_replicate]
          omega
        obtain ⟨buf₂, hstore, hcap₂, hheld₂⟩ := hheld₁.append (chr '-') (by omega)
        rw [hl] at hstore
        refine ⟨buf₂, ?_, hcap₂.trans hcap₁, ?_⟩
        · rw [if_neg Bool.false_ne_true, if_pos ⟨rfl, Bool.false_ne_true, hz⟩, Nat.add_sub_cancel, hfill]
          exact hstore
        · rw [if_neg Bool.false_ne_true, if_pos hz, padding, signText, if_pos rfl, List.length_append,
            List.length_singleton]
          rwa [show length - (ds.length + 1) = length - 1 - ds.length by omega]
    · obtain ⟨buf', hfill, hcap, hheld'⟩ := hspace padc
      rw [if_neg Bool.false_ne_true, if_neg fun hc => hz hc.2.2, if_neg Bool.false_ne_true, if_neg hz]
      exact ⟨buf', hfill, hcap, hheld'⟩

-- ---------------------------------------------------------------------------
-- The string
-- ---------------------------------------------------------------------------

/-- The string of a number: with `ladjust` the sign, the digits and spaces, with `0` the sign,
zeros and the digits, and else padding, the sign and the digits. -/
def numText (neg ladjust : Bool) (padc : BitVec 8) (ds : Text) (length : Nat) : Text :=
  if ladjust then signText neg ++ ds ++ padding neg ds length (chr ' ')
  else if padc = chr '0' then signText neg ++ padding neg ds length padc ++ ds
  else padding neg ds length padc ++ signText neg ++ ds

theorem signText_reverse (neg : Bool) : (signText neg).reverse = signText neg := by
  cases neg with
  | true => rfl
  | false => rfl

theorem numText_length (neg ladjust : Bool) (padc : BitVec 8) (ds : Text) (length : Nat) :
    (numText neg ladjust padc ds length).length = max length (ds.length + (signText neg).length) := by
  have hpad : ∀ c, (padding neg ds length c).length = length - (ds.length + (signText neg).length) := fun c => by
    rw [padding, List.length_replicate, List.length_append]
  unfold numText
  split_ifs
  · rw [List.length_append, List.length_append, hpad]
    omega
  · rw [List.length_append, List.length_append, hpad]
    omega
  · rw [List.length_append, List.length_append, hpad]
    omega

/-- A width that is too small does not matter. -/
theorem padding_max (neg : Bool) (ds : Text) (length : Nat) (c : BitVec 8) :
    padding neg ds (max length (ds ++ signText neg).length) c = padding neg ds length c := by
  unfold padding
  congr 1
  omega

/-- The part of the buffer that is reversed at the end, and what is left behind it. -/
theorem padded_reverse (neg ladjust : Bool) (padc : BitVec 8) (ds : Text) (length : Nat) :
    ∃ mid post, padded neg ladjust padc ds length = mid ++ post ∧
      mid.length = (if ladjust then (ds ++ signText neg).length else (padded neg ladjust padc ds length).length) ∧
      mid.reverse ++ post = numText neg ladjust padc ds.reverse length := by
  have hpad : ∀ c, (padding neg ds length c).reverse = padding neg ds.reverse length c := by
    intro c
    unfold padding
    rw [List.reverse_replicate, List.length_append, List.length_append, List.length_reverse]
  unfold padded numText
  split_ifs with hl hz
  · refine ⟨ds ++ signText neg, _, rfl, rfl, ?_⟩
    rw [List.reverse_append, signText_reverse, ← hpad, padding, List.reverse_replicate]
  · refine ⟨_, [], (List.append_nil _).symm, rfl, ?_⟩
    rw [List.append_nil, List.reverse_append, List.reverse_append, signText_reverse, hpad, List.append_assoc]
  · refine ⟨_, [], (List.append_nil _).symm, rfl, ?_⟩
    rw [List.append_nil, List.reverse_append, List.reverse_append, signText_reverse, hpad, List.append_assoc]

/-- **print_num.** -/
theorem printNum_run (hbase : 1 < base) (hu : u < 2 ^ 32) (neg : Bool) {length : Nat} (hlen : length < 2 ^ 31 - 70)
    (ladjust : Bool) (padc : BitVec 8) (upcase : Bool) :
    printNum u base neg length ladjust padc upcase =
      some (numText neg ladjust padc (digitText base upcase u) length) := by
  obtain ⟨ds, hds⟩ : ∃ ds, ds = (digitsOf base u).map (digitChar upcase) := ⟨_, rfl⟩
  have hdslen : ds.length = (digitsOf base u).length := hds ▸ List.length_map ..
  have h32 := digitsOf_length_le hbase hu
  have hsign : (signText neg).length ≤ 1 := by
    cases neg with
    | true => exact Nat.le_refl 1
    | false => exact Nat.zero_le 1
  have hactual : (ds ++ signText neg).length = ds.length + (signText neg).length := List.length_append
  have hpos : 0 < ds.length := hdslen ▸ Nat.succ_pos _
  have hcap : (digitsOf base u).length ≤ length + 70 := by omega
  obtain ⟨s, hdigits, hcap₁, hheld₁, hp₁⟩ := putDigits_run hbase upcase hu hcap
  rw [← hds] at hheld₁
  obtain ⟨s₂, hputSign, hcap₂, hheld₂, hp₂⟩ := putSign_run neg hheld₁ (hp₁.trans hdslen.symm) (by omega)
  obtain ⟨len, hl⟩ : ∃ len, len = max length (ds ++ signText neg).length := ⟨_, rfl⟩
  have hlen_eq : (if length < s₂.p then s₂.p else length) = len := by
    rw [hl, hp₂]
    split_ifs with hlt
    · exact (Nat.max_eq_right (Nat.le_of_lt hlt)).symm
    · exact (Nat.max_eq_left (Nat.le_of_not_lt hlt)).symm
  have hle : (ds ++ signText neg).length ≤ len := by omega
  obtain ⟨buf, hpad, hcap₃, hheld₃⟩ := putPadding_run neg ladjust padc hheld₂ hle (by omega) (by omega)
  obtain ⟨mid, post, hsplit, hmid, hrev⟩ := padded_reverse neg ladjust padc ds len
  have hpadded : (padded neg ladjust padc ds len).length = len := by
    have hlen' := congrArg List.length hrev
    rw [numText_length, List.length_append, List.length_reverse, List.length_reverse] at hlen'
    rw [hsplit, List.length_append]
    omega
  rw [hpadded] at hmid
  obtain ⟨hi, hhi⟩ : ∃ hi, hi = if ladjust then s₂.p - 1 else len - 1 := ⟨_, rfl⟩
  have hmidlen : mid.length = hi + 1 := by
    rw [hmid, hhi, hp₂]
    split_ifs
    · omega
    · omega
  have hmidlt : mid.length < 2 ^ 32 := by
    have := congrArg List.length hsplit
    rw [hpadded, List.length_append] at this
    omega
  rw [hsplit] at hheld₃
  obtain ⟨buf', hreverse, hcap₄, hheld₄⟩ := hheld₃.reverse hmidlen hmidlt
  rw [hrev] at hheld₄
  have htext : numText neg ladjust padc ds.reverse len = numText neg ladjust padc ds.reverse length := by
    have hmax : len = max length (ds.reverse ++ signText neg).length := by
      rw [hl, List.length_append, List.length_append, List.length_reverse]
    unfold numText
    rw [hmax, padding_max, padding_max]
  have hout : buf'.text len = some (numText neg ladjust padc (digitText base upcase u) length) := by
    have := hheld₄.text
    rw [numText_length, List.length_reverse, htext, show max len (ds.length + (signText neg).length) = len by omega,
      hds] at this
    exact this
  unfold printNum
  rw [if_neg (by omega), hdigits]
  simp only [Option.bind_eq_bind, Option.bind_some, hputSign, hlen_eq, ← hhi]
  rw [hp₂, hpad]
  simp only [Option.bind_some, hreverse]
  exact hout

end Mos.Base
