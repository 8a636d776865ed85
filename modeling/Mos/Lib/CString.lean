import Mathlib.Data.List.TakeWhile
import Mos.Lib.Loop

/-!
# Strings that end with a zero byte

A memory of which some addresses are mapped: a read of any other address gives `none`.
`CString m a f` says that the bytes of `f` and a zero byte behind them are at `a`; nothing
is said of the addresses behind the zero byte.

Main results:

* `CString.unique` — a string is determined by where it starts;
* `CString.cut` — a zero byte in the middle of a string ends it there;
* `CString.countWhile` and `CString.readBytes` — a scan that stops at the zero byte at the
  latest, and a read of a first part, find what they need.
-/

namespace Mos.Lib

abbrev Mapped := Nat → Option (BitVec 8)

/-- The string at `a`, with the zero byte that ends it. -/
def CString (m : Mapped) : Nat → List (BitVec 8) → Prop
  | a, [] => m a = some 0
  | a, c :: f => c ≠ 0 ∧ m a = some c ∧ CString m (a + 1) f

/-- The `n` bytes from `a` on. -/
def readBytes (m : Mapped) (a : Nat) : Nat → Option (List (BitVec 8))
  | 0 => some []
  | n + 1 => do
    let c ← m a
    let f ← readBytes m (a + 1) n
    return c :: f

/-- `while (p(*a)) { count++; a++; }`. -/
def countWhile (m : Mapped) (p : BitVec 8 → Bool) : Nat → Nat → Option Nat
  | 0, _ => none
  | fuel + 1, a => do
    let c ← m a
    if p c then (countWhile m p fuel (a + 1)).map (· + 1) else some 0

variable {m : Mapped} {a : Nat} {c : BitVec 8} {f g : List (BitVec 8)} {p : BitVec 8 → Bool}

theorem countWhile_some {fuel : Nat} (h : m a = some c) :
    countWhile m p (fuel + 1) a = if p c then (countWhile m p fuel (a + 1)).map (· + 1) else some 0 := by
  rw [countWhile, h]
  rfl

namespace CString

/-- The first byte: the zero byte, if the string is empty. -/
theorem first (h : CString m a f) : m a = some (f.headD 0) := by
  cases f with
  | nil => exact h
  | cons c f => exact h.2.1

theorem drop (h : CString m a (f ++ g)) : CString m (a + f.length) g := by
  induction f generalizing a with
  | nil => exact h
  | cons c f ih =>
    have hrest := ih h.2.2
    rwa [Nat.add_assoc, Nat.add_comm 1] at hrest

theorem nonzero (h : CString m a f) : ∀ c ∈ f, c ≠ 0 := by
  induction f generalizing a with
  | nil => exact fun c hc => absurd hc List.not_mem_nil
  | cons c f ih =>
    intro x hx
    rcases List.mem_cons.mp hx with rfl | hx
    · exact h.1
    · exact ih h.2.2 x hx

theorem unique (h : CString m a f) (h' : CString m a g) : f = g := by
  induction f generalizing a g with
  | nil =>
    cases g with
    | nil => rfl
    | cons d g => exact absurd (Option.some.inj (h'.2.1.symm.trans h)) h'.1
  | cons c f ih =>
    cases g with
    | nil => exact absurd (Option.some.inj (h.2.1.symm.trans h')) h.1
    | cons d g =>
      obtain rfl : c = d := Option.some.inj (h.2.1.symm.trans h'.2.1)
      rw [ih h.2.2 h'.2.2]

theorem of_bytes (hf : ∀ c ∈ f, c ≠ 0) (hm : ∀ k (h : k < f.length), m (a + k) = some f[k])
    (hzero : m (a + f.length) = some 0) : CString m a f := by
  induction f generalizing a with
  | nil => exact hzero
  | cons c f ih =>
    refine ⟨hf c List.mem_cons_self, hm 0 (Nat.succ_pos _), ih (fun d hd => hf d (List.mem_cons_of_mem c hd)) ?_ ?_⟩
    · intro k hk
      have hmk := hm (k + 1) (Nat.succ_lt_succ hk)
      rwa [← Nat.add_assoc, Nat.add_right_comm] at hmk
    · rwa [List.length_cons, ← Nat.add_assoc, Nat.add_right_comm] at hzero

theorem congr {m' : Mapped} (h : CString m a f) (hm : ∀ x, a ≤ x → x ≤ a + f.length → m' x = m x) : CString m' a f := by
  induction f generalizing a with
  | nil => exact (hm a (Nat.le_refl a) (Nat.le_refl a)).trans h
  | cons c f ih =>
    rw [List.length_cons] at hm
    exact ⟨h.1, (hm a (Nat.le_refl a) (by omega)).trans h.2.1, ih h.2.2 fun x hx hx' => hm x (by omega) (by omega)⟩

/-- A zero byte ends the string where it is put. -/
theorem cut {m' : Mapped} (h : CString m a (f ++ g)) (hm : ∀ x, a ≤ x → x < a + f.length → m' x = m x)
    (hzero : m' (a + f.length) = some 0) : CString m' a f := by
  induction f generalizing a with
  | nil => exact hzero
  | cons c f ih =>
    rw [List.length_cons] at hm hzero
    refine ⟨h.1, (hm a (Nat.le_refl a) (by omega)).trans h.2.1, ih h.2.2 (fun x hx hx' => hm x (by omega) (by omega)) ?_⟩
    rwa [Nat.add_assoc, Nat.add_comm 1]

theorem readBytes (h : CString m a (f ++ g)) : readBytes m a f.length = some f := by
  induction f generalizing a with
  | nil => rfl
  | cons c f ih =>
    rw [List.length_cons, Lib.readBytes, h.2.1, ih h.2.2]
    rfl

/-- A scan that does not go past the zero byte. -/
theorem countWhile (h : CString m a f) (hp : p 0 = false) {fuel : Nat} (hfuel : f.length < fuel) :
    countWhile m p fuel a = some (f.takeWhile p).length := by
  induction f generalizing a fuel with
  | nil =>
    obtain ⟨n, rfl⟩ := Nat.exists_eq_succ_of_ne_zero (Nat.ne_of_gt (Nat.zero_lt_of_lt hfuel))
    rw [countWhile_some h, hp]
    rfl
  | cons c f ih =>
    obtain ⟨n, rfl⟩ := Nat.exists_eq_succ_of_ne_zero (Nat.ne_of_gt (Nat.zero_lt_of_lt hfuel))
    rw [countWhile_some h.2.1]
    by_cases hc : p c = true
    · rw [if_pos hc, ih h.2.2 (Nat.lt_of_succ_lt_succ hfuel), List.takeWhile_cons_of_pos hc]
      rfl
    · rw [if_neg hc, List.takeWhile_cons_of_neg hc]
      rfl

/-- What is left behind the scan. -/
theorem dropWhile (h : CString m a f) (p : BitVec 8 → Bool) :
    CString m (a + (f.takeWhile p).length) (f.dropWhile p) :=
  drop (by rwa [List.takeWhile_append_dropWhile])

end CString

end Mos.Lib
