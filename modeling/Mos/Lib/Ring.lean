import Mathlib.Logic.Function.Basic
import Mathlib.Data.Nat.ModEq

/-!
# Rings with free-running indices

A producer and a consumer share an array of `N` cells and two counters modulo
`M`, a multiple of `N`: the consumer stands at `lo`, the producer at `hi`, and
counter `c` addresses cell `c % N`. `Window N M ring lo hi l` says that the
cells from `lo` up to `hi` hold the list `l`. The producer appends
(`Window.push`), the consumer takes the first (`Window.pop`), and as long as
fewer than `N` entries are outstanding the counters may wrap at any time.
-/

namespace Mos.Lib

variable {α : Type} {N M lo hi : Nat} {ring : Nat → α} {l : List α} {x : α}

structure Window (N M : Nat) (ring : Nat → α) (lo hi : Nat) (l : List α) : Prop where
  loLt : lo < M
  hiEq : hi = (lo + l.length) % M
  get : ∀ i x, l[i]? = some x → ring ((lo + i) % M % N) = x

namespace Window

theorem empty (h : lo < M) : Window N M ring lo lo [] := by
  refine ⟨h, ?_, ?_⟩
  · rw [List.length_nil, Nat.add_zero, Nat.mod_eq_of_lt h]
  · intro i x hx
    simp at hx

/-- The counters meet only on an empty window. -/
theorem lo_eq_hi_iff (h : Window N M ring lo hi l) (hlen : l.length < M) : lo = hi ↔ l = [] := by
  have hlo := h.loLt
  constructor
  · intro he
    by_contra hne
    have hpos : 0 < l.length := List.length_pos_iff.mpr hne
    have hmod := h.hiEq
    rw [← he] at hmod
    by_cases hw : lo + l.length < M
    · rw [Nat.mod_eq_of_lt hw] at hmod
      omega
    · rw [Nat.mod_eq_sub_mod (by omega), Nat.mod_eq_of_lt (by omega)] at hmod
      omega
  · intro he
    rw [h.hiEq, he, List.length_nil, Nat.add_zero, Nat.mod_eq_of_lt hlo]

/-- The counters determine the number of entries. -/
theorem length_eq (h : Window N M ring lo hi l) (hlen : l.length < M) :
    (hi + M - lo) % M = l.length := by
  have hlo := h.loLt
  rw [h.hiEq]
  by_cases hw : lo + l.length < M
  · rw [Nat.mod_eq_of_lt hw, show lo + l.length + M - lo = l.length + M by omega,
      Nat.add_mod_right, Nat.mod_eq_of_lt hlen]
  · rw [Nat.mod_eq_sub_mod (by omega : M ≤ lo + l.length),
      Nat.mod_eq_of_lt (by omega : lo + l.length - M < M),
      show lo + l.length - M + M - lo = l.length by omega, Nat.mod_eq_of_lt hlen]

/-- The producer's cell is not one the consumer still has to read. -/
theorem slot_ne (h : Window N M ring lo hi l) (hNM : N ∣ M) (hlen : l.length < N) {i : Nat}
    (hi' : i < l.length) : (lo + i) % M % N ≠ hi % N := by
  rw [h.hiEq, Nat.mod_mod_of_dvd _ hNM, Nat.mod_mod_of_dvd _ hNM]
  intro he
  have hcong : Nat.ModEq N (lo + i) (lo + l.length) := he
  have hcancel := Nat.ModEq.add_left_cancel' lo hcong
  rw [Nat.ModEq, Nat.mod_eq_of_lt (by omega), Nat.mod_eq_of_lt hlen] at hcancel
  omega

/-- The producer writes its cell and advances. -/
theorem push (h : Window N M ring lo hi l) (hNM : N ∣ M) (hlen : l.length < N) (x : α) :
    Window N M (Function.update ring (hi % N) x) lo ((hi + 1) % M) (l ++ [x]) := by
  refine ⟨h.loLt, ?_, ?_⟩
  · rw [h.hiEq, Nat.mod_add_mod, List.length_append, List.length_singleton]
    rfl
  · intro i y hy
    by_cases hlt : i < l.length
    · rw [List.getElem?_append_left hlt] at hy
      rw [Function.update_of_ne (h.slot_ne hNM hlen hlt)]
      exact h.get i y hy
    · have heq : i = l.length := by
        have := (List.getElem?_eq_some_iff.mp hy).1
        rw [List.length_append, List.length_singleton] at this
        omega
      subst heq
      rw [List.getElem?_append_right (Nat.le_refl _), Nat.sub_self] at hy
      rw [← h.hiEq, Function.update_self]
      simpa using hy

/-- The consumer reads its cell and advances. -/
theorem pop (h : Window N M ring lo hi (x :: l)) :
    ring (lo % N) = x ∧ Window N M ring ((lo + 1) % M) hi l := by
  have hlo := h.loLt
  refine ⟨?_, Nat.mod_lt _ (Nat.zero_lt_of_lt hlo), ?_, ?_⟩
  · have := h.get 0 x rfl
    rwa [Nat.add_zero, Nat.mod_eq_of_lt hlo] at this
  · rw [h.hiEq, List.length_cons, Nat.mod_add_mod]
    congr 1
    omega
  · intro i y hy
    have := h.get (i + 1) y (by rw [List.getElem?_cons_succ]; exact hy)
    rw [Nat.mod_add_mod, Nat.add_right_comm, Nat.add_assoc]
    exact this

end Window

end Mos.Lib
