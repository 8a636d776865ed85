import Mathlib.Algebra.Group.Nat.Defs
import Mos.Lib.Buffer
import Mos.Lib.CString

/-!
# MOS on RISC-V — vprintfmt

The formatter of `lib/print.c`. It reads the format and string arguments from memory; a
read of an address that is not mapped, an argument that is not there, an `int` that
overflows and a store outside of `buf` give `none`. What it puts out is kept call by call
of `out`. `int`, `long` and pointers have 32 bits.
-/

namespace Mos.Base

open Mos.Lib

abbrev Text := List (BitVec 8)

/-- A character as a byte. -/
def chr (c : Char) : BitVec 8 := BitVec.ofNat 8 c.toNat

-- ---------------------------------------------------------------------------
-- print_num, print_char and print_str
-- ---------------------------------------------------------------------------

/-- The digit `tmp`. -/
def digitChar (upcase : Bool) (tmp : Nat) : BitVec 8 :=
  if tmp ≤ 9 then BitVec.ofNat 8 ('0'.toNat + tmp)
  else if upcase then BitVec.ofNat 8 ('A'.toNat + tmp - 10)
  else BitVec.ofNat 8 ('a'.toNat + tmp - 10)

/-- What is left of the number, the buffer, and `p - buf`. -/
structure Digits where
  u : Nat
  buf : Buffer (BitVec 8)
  p : Nat

def digitRound (base : Nat) (upcase : Bool) (s : Digits) : Option Digits := do
  let buf ← s.buf.store s.p (digitChar upcase (s.u % base))
  return ⟨s.u / base, buf, s.p + 1⟩

/-- `do { … } while (u != 0)`. -/
def putDigits (base : Nat) (upcase : Bool) (s : Digits) : Option Digits := do
  let s ← digitRound base upcase s
  loop (fun s => s.u ≠ 0) (digitRound base upcase) (2 ^ 32) s

def putSign (neg : Bool) (s : Digits) : Option Digits :=
  if neg then (s.buf.store s.p (chr '-')).map fun buf => ⟨s.u, buf, s.p + 1⟩ else some s

/-- Add padding, from `actualLength` to `length`. -/
def putPadding (neg ladjust : Bool) (padc : BitVec 8) (actualLength length : Nat)
    (buf : Buffer (BitVec 8)) : Option (Buffer (BitVec 8)) :=
  let padc := if ladjust then chr ' ' else padc
  if neg ∧ ¬ ladjust ∧ padc = chr '0' then do
    let buf ← buf.fill (2 ^ 32) (actualLength - 1) (length - 1) padc
    buf.store (length - 1) (chr '-')
  else buf.fill (2 ^ 32) actualLength length padc

/-- `print_num`: the string that it puts out. `length` is an `int`, and so is `length + 70`. -/
def printNum (u base : Nat) (neg : Bool) (length : Nat) (ladjust : Bool) (padc : BitVec 8)
    (upcase : Bool) : Option Text := do
  if 2 ^ 31 ≤ length + 70 then none
  let s ← putDigits base upcase ⟨u, .empty (length + 70), 0⟩
  let s ← putSign neg s
  let actualLength := s.p
  let length := if length < actualLength then actualLength else length
  let buf ← putPadding neg ladjust padc actualLength length s.buf
  let last := if ladjust then actualLength - 1 else length - 1
  let buf ← buf.reverse (2 ^ 32) 0 last
  buf.text length

/-- `for (i = i; i < n; i++) out(" ")`. -/
def spaces (i n : Nat) : List Text := List.replicate (n - i) [chr ' ']

/-- `print_char`. -/
def printChar (c : BitVec 8) (length : Nat) (ladjust : Bool) : List Text :=
  let length := if length < 1 then 1 else length
  if ladjust then [c] :: spaces 1 length else spaces 0 (length - 1) ++ [[c]]

/-- `print_str`. -/
def printStr (m : Mapped) (fuel s length : Nat) (ladjust : Bool) : Option (List Text) := do
  let len ← countWhile m (fun c => c ≠ 0) fuel s
  let length := if length < len then len else length
  let text ← readBytes m s len
  return if ladjust then text :: spaces len length else spaces 0 (length - len) ++ [text]

-- ---------------------------------------------------------------------------
-- vprintfmt
-- ---------------------------------------------------------------------------

/-- `fmt`, the arguments that are left, and what is put out. -/
structure Printing where
  fmt : Nat
  ap : List (BitVec 32)
  out : List Text

/-- `va_arg`. An `int`, a `long` and a pointer take one word. -/
def vaArg : List (BitVec 32) → Option (BitVec 32 × List (BitVec 32))
  | [] => none
  | w :: ap => some (w, ap)

def isDigit (c : BitVec 8) : Bool := chr '0' ≤ c && c ≤ chr '9'

/-- The width, and the address behind its last digit. -/
def scanWidth (m : Mapped) : Nat → Nat → Nat → Option (Nat × Nat)
  | 0, _, _ => none
  | fuel + 1, fmt, width => do
    let c ← m fmt
    if isDigit c then
      let width := (width <<< 1) + (width <<< 3) + (c &&& 15#8).toNat
      if 2 ^ 31 ≤ width then none else scanWidth m fuel (fmt + 1) width
    else some (width, fmt)

/-- A character that may stand at `fmt`, and the address behind it. -/
def scanFlag (m : Mapped) (flag : Char) (fmt : Nat) : Option (Bool × Nat) := do
  let c ← m fmt
  return if c = chr flag then (true, fmt + 1) else (false, fmt)

/-- What stands between `%` and the conversion. -/
structure Flags where
  ladjust : Bool
  zero : Bool                -- `padc` is `'0'`, not `' '`
  width : Nat
  long : Bool
  deriving DecidableEq, Repr

def Flags.padc (d : Flags) : BitVec 8 := if d.zero then chr '0' else chr ' '

/-- `num = va_arg(ap, long int)`, or `int`; a `long` is no longer than an `int`. -/
def vaNum (long : Bool) (ap : List (BitVec 32)) : Option (BitVec 32 × List (BitVec 32)) :=
  if long then vaArg ap else vaArg ap

/-- The cases that print a number as it is. -/
def convertNum (d : Flags) (base : Nat) (upcase : Bool) (ap : List (BitVec 32)) :
    Option (List Text × List (BitVec 32)) := do
  let (num, ap) ← vaNum d.long ap
  let text ← printNum num.toNat base false d.width d.ladjust d.padc upcase
  return ([text], ap)

/-- `case 'd'`. The negation is that of a 32-bit word. -/
def convertInt (d : Flags) (ap : List (BitVec 32)) : Option (List Text × List (BitVec 32)) := do
  let (num, ap) ← vaNum d.long ap
  let (num, neg) := if num.toInt < 0 then (-num, true) else (num, false)
  let text ← printNum num.toNat 10 neg d.width d.ladjust d.padc false
  return ([text], ap)

/-- `case 'c'`. -/
def convertChar (d : Flags) (ap : List (BitVec 32)) : Option (List Text × List (BitVec 32)) := do
  let (c, ap) ← vaArg ap
  return (printChar (c.setWidth 8) d.width d.ladjust, ap)

/-- `case 's'`. -/
def convertStr (m : Mapped) (fuel : Nat) (d : Flags) (ap : List (BitVec 32)) :
    Option (List Text × List (BitVec 32)) := do
  let (s, ap) ← vaArg ap
  let out ← printStr m fuel s.toNat d.width d.ladjust
  return (out, ap)

/-- The switch, but for `case '\0'`. -/
def convert (m : Mapped) (fuel : Nat) (c : BitVec 8) (d : Flags) (ap : List (BitVec 32)) :
    Option (List Text × List (BitVec 32)) :=
  if c = chr 'b' then convertNum d 2 false ap
  else if c = chr 'd' ∨ c = chr 'D' then convertInt d ap
  else if c = chr 'o' ∨ c = chr 'O' then convertNum d 8 false ap
  else if c = chr 'u' ∨ c = chr 'U' then convertNum d 10 false ap
  else if c = chr 'x' then convertNum d 16 false ap
  else if c = chr 'X' then convertNum d 16 true ap
  else if c = chr 'c' then convertChar d ap
  else if c = chr 's' then convertStr m fuel d ap
  else some ([[c]], ap)

/-- From behind the `%` on, when no second one follows it. -/
def directive (m : Mapped) (fuel : Nat) (s : Printing) : Option Printing := do
  let (ladjust, fmt) ← scanFlag m '-' s.fmt
  let (zero, fmt) ← scanFlag m '0' fmt
  let (width, fmt) ← scanWidth m fuel fmt 0
  let (long, fmt) ← scanFlag m 'l' fmt
  let c ← m fmt
  -- at the end, `fmt--` and `fmt++`
  if c = 0 then return ⟨fmt - 1 + 1, s.ap, s.out⟩
  let (out, ap) ← convert m fuel c ⟨ladjust, zero, width, long⟩ s.ap
  return ⟨fmt + 1, ap, s.out ++ out⟩

/-- The rounds of the loop from here on. -/
def formatFrom (m : Mapped) (n : Nat) : Nat → Printing → Option Printing
  | 0, _ => none
  | fuel + 1, s => do
    let width ← countWhile m (fun c => c ≠ 0 ∧ c ≠ chr '%') n s.fmt
    let text ← readBytes m s.fmt width
    let s : Printing := ⟨s.fmt + width, s.ap, s.out ++ [text]⟩
    let c ← m s.fmt
    if c = 0 then return s
    let c ← m (s.fmt + 1)
    if c = chr '%' then formatFrom m n fuel ⟨s.fmt + 2, s.ap, s.out ++ [[chr '%']]⟩
    else do
      let s ← directive m n ⟨s.fmt + 1, s.ap, s.out⟩
      formatFrom m n fuel s

/-- `vprintfmt`, if no loop of it takes more than `n` tests. -/
def vprintfmt (m : Mapped) (n fmt : Nat) (ap : List (BitVec 32)) : Option Printing :=
  formatFrom m n n ⟨fmt, ap, []⟩

end Mos.Base
