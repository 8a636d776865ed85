import Mathlib.Data.List.Induction
import Mathlib.Logic.Function.Basic
import Mos.Lib.Loop

/-!
# Buffers with bounds

A buffer of `cap` cells that hold nothing until they are written. A store outside of the
buffer, and a load of a cell that was never written, gives `none`. `Holds b l` says that
the first cells hold `l`.

Main results:

* `Holds.append`, `Holds.replace` — a store behind what is held, and into it;
* `Holds.fill` — a loop that fills up the buffer with one value;
* `Holds.reverse` — a loop that swaps the first and the last cell, and moves inwards.
-/

namespace Mos.Lib

structure Buffer (α : Type) where
  cap : Nat
  cell : Nat → Option α

namespace Buffer

variable {α : Type}

def empty (cap : Nat) : Buffer α := ⟨cap, fun _ => none⟩

def store (b : Buffer α) (i : Nat) (v : α) : Option (Buffer α) :=
  if i < b.cap then some ⟨b.cap, Function.update b.cell i (some v)⟩ else none

def load (b : Buffer α) (i : Nat) : Option α := if i < b.cap then b.cell i else none

/-- The first `n` cells. -/
def text (b : Buffer α) (n : Nat) : Option (List α) := (List.range n).mapM b.load

/-- A buffer and the cell that is next. -/
structure Cursor (α : Type) where
  buf : Buffer α
  i : Nat

/-- `for (; i < n; i++) buf[i] = v`. -/
def fill (fuel : Nat) (b : Buffer α) (i n : Nat) (v : α) : Option (Buffer α) :=
  (loop (fun s => s.i < n) (fun s => (s.buf.store s.i v).map fun b => ⟨b, s.i + 1⟩) fuel (Cursor.mk b i)).map
    Cursor.buf

/-- A buffer and two of its cells. -/
structure Pair (α : Type) where
  buf : Buffer α
  lo : Nat
  hi : Nat

def swap (s : Pair α) : Option (Pair α) := do
  let tmp ← s.buf.load s.lo
  let b ← s.buf.store s.lo (← s.buf.load s.hi)
  let b ← b.store s.hi tmp
  return ⟨b, s.lo + 1, s.hi - 1⟩

/-- `while (hi > lo) { swap(buf[lo], buf[hi]); lo++; hi--; }`. -/
def reverse (fuel : Nat) (b : Buffer α) (lo hi : Nat) : Option (Buffer α) :=
  (loop (fun s => s.lo < s.hi) swap fuel (Pair.mk b lo hi)).map Pair.buf

/-- The first cells hold `l`. -/
structure Holds (b : Buffer α) (l : List α) : Prop where
  room : l.length ≤ b.cap
  cell : ∀ i, i < l.length → b.cell i = l[i]?

namespace Holds

variable {b : Buffer α} {l pre mid post : List α} {v w : α} {n fuel : Nat}

theorem empty (cap : Nat) : Holds (empty cap : Buffer α) [] :=
  ⟨Nat.zero_le cap, fun _ hi => absurd hi (Nat.not_lt_zero _)⟩

/-- What is held in the first cells only. -/
theorem take (h : Holds b (pre ++ post)) : Holds b pre := by
  have hlen : (pre ++ post).length = pre.length + post.length := List.length_append
  refine ⟨by have := h.room; omega, fun i hi => ?_⟩
  rw [h.cell i (by omega), List.getElem?_append_left hi]

theorem load (h : Holds b (pre ++ v :: post)) : b.load pre.length = some v := by
  have hlt : pre.length < (pre ++ v :: post).length := by
    rw [List.length_append, List.length_cons]
    omega
  unfold Buffer.load
  rw [if_pos (Nat.lt_of_lt_of_le hlt h.room), h.cell _ hlt, List.getElem?_append_right (Nat.le_refl _),
    Nat.sub_self]
  rfl

theorem text (h : Holds b l) : b.text l.length = some l := by
  have hcells : ∀ k ≤ l.length, (List.range k).mapM b.load = some (l.take k) := by
    intro k hk
    induction k with
    | zero => rfl
    | succ k ih =>
      have hlt' : k < l.length := hk
      have hlt : k < b.cap := Nat.lt_of_lt_of_le hk h.room
      have hload : b.load k = some l[k] := by
        unfold Buffer.load
        rw [if_pos hlt, h.cell k hk, List.getElem?_eq_getElem hk]
      rw [List.range_succ, List.mapM_append, ih (Nat.le_of_succ_le hk)]
      simp only [List.mapM_cons, List.mapM_nil, hload, Option.bind_eq_bind, Option.bind_some, Option.pure_def]
      rw [List.take_succ_eq_append_getElem hk]
  rw [Buffer.text, hcells _ (Nat.le_refl _), List.take_length]

/-- A store into what is held. -/
theorem replace (h : Holds b (pre ++ v :: post)) (w : α) :
    ∃ b', b.store pre.length w = some b' ∧ b'.cap = b.cap ∧ Holds b' (pre ++ w :: post) := by
  have hlen : ∀ x : α, (pre ++ x :: post).length = pre.length + post.length + 1 := fun x => by
    rw [List.length_append, List.length_cons, Nat.add_assoc]
  have hroom := h.room
  rw [hlen] at hroom
  refine ⟨_, if_pos (by omega), rfl, by rw [hlen]; exact hroom, fun i hi => ?_⟩
  by_cases heq : i = pre.length
  · rw [heq, List.getElem?_append_right (Nat.le_refl _), Nat.sub_self]
    exact Function.update_self ..
  · refine (Function.update_of_ne heq ..).trans ?_
    rw [h.cell i (by rw [hlen] at hi ⊢; exact hi)]
    by_cases hlt : i < pre.length
    · rw [List.getElem?_append_left hlt, List.getElem?_append_left hlt]
    · obtain ⟨k, rfl⟩ : ∃ k, i = pre.length + (k + 1) := ⟨i - pre.length - 1, by omega⟩
      rw [List.getElem?_append_right (by omega), List.getElem?_append_right (by omega),
        Nat.add_sub_cancel_left, List.getElem?_cons_succ, List.getElem?_cons_succ]

/-- A store behind what is held. -/
theorem append (h : Holds b l) (v : α) (hroom : l.length < b.cap) :
    ∃ b', b.store l.length v = some b' ∧ b'.cap = b.cap ∧ Holds b' (l ++ [v]) := by
  refine ⟨_, if_pos hroom, rfl, ?_, fun i hi => ?_⟩
  · rw [List.length_append, List.length_singleton]
    exact hroom
  · rw [List.length_append, List.length_singleton] at hi
    by_cases heq : i = l.length
    · rw [heq, List.getElem?_append_right (Nat.le_refl _), Nat.sub_self]
      exact Function.update_self ..
    · refine (Function.update_of_ne heq ..).trans ?_
      rw [h.cell i (by omega), List.getElem?_append_left (by omega)]

/-- The loop has filled `k` cells. -/
def FillInv (b : Buffer α) (l : List α) (n : Nat) (v : α) (s : Cursor α) : Prop :=
  s.buf.cap = b.cap ∧ ∃ k, s.i = l.length + k ∧ (k = 0 ∨ s.i ≤ n) ∧ Holds s.buf (l ++ List.replicate k v)

theorem fill (h : Holds b l) (v : α) (hn : n ≤ b.cap) (hfuel : n < fuel) :
    ∃ b', Buffer.fill fuel b l.length n v = some b' ∧ b'.cap = b.cap ∧
      Holds b' (l ++ List.replicate (n - l.length) v) := by
  have hround : ∀ s : Cursor α, FillInv b l n v s → s.i < n →
      ∃ s', (s.buf.store s.i v).map (fun b => Cursor.mk b (s.i + 1)) = some s' ∧ FillInv b l n v s' ∧
        n - s'.i < n - s.i := by
    rintro s ⟨hcap, k, hs, hle, hheld⟩ hlt
    have hlen : (l ++ List.replicate k v).length = s.i := by
      rw [List.length_append, List.length_replicate, hs]
    obtain ⟨b', hstore, hcap', hheld'⟩ := hheld.append v (by omega)
    rw [hlen] at hstore
    rw [List.append_assoc, ← List.replicate_succ'] at hheld'
    rw [hstore]
    refine ⟨⟨b', s.i + 1⟩, rfl, ⟨hcap'.trans hcap, k + 1, ?_, Or.inr hlt, hheld'⟩, ?_⟩
    · show s.i + 1 = _
      omega
    · show n - (s.i + 1) < n - s.i
      omega
  have hstart : FillInv b l n v ⟨b, l.length⟩ :=
    ⟨rfl, 0, rfl, Or.inl rfl, (List.append_nil l).symm ▸ h⟩
  obtain ⟨s, hloop, ⟨hcap, k, hs, hle, hheld⟩, hstop⟩ := loop_measure (FillInv b l n v) (fun s => n - s.i)
    hround hstart (show n - l.length < fuel by omega)
  have hk : n - l.length = k := by omega
  exact ⟨s.buf, congrArg (Option.map Cursor.buf) hloop, hcap, hk ▸ hheld⟩

/-- The cells of `mid` are swapped pair by pair, from its ends inwards. -/
theorem reverse_loop (h : Holds b (pre ++ mid ++ post)) {hi : Nat} (hhi : pre.length + mid.length = hi + 1)
    (hfuel : mid.length < fuel) :
    ∃ s, loop (fun s => s.lo < s.hi) swap fuel (Pair.mk b pre.length hi) = some s ∧
      s.buf.cap = b.cap ∧ Holds s.buf (pre ++ mid.reverse ++ post) := by
  obtain ⟨f, rfl⟩ := Nat.exists_eq_succ_of_ne_zero (Nat.ne_of_gt (Nat.zero_lt_of_lt hfuel))
  induction mid using List.bidirectionalRec generalizing b pre post hi f with
  | nil =>
    refine ⟨_, loop_done (fun hc => ?_) f, rfl, h⟩
    rw [List.length_nil] at hhi
    exact absurd hc (by show ¬ pre.length < hi; omega)
  | singleton x =>
    refine ⟨_, loop_done (fun hc => ?_) f, rfl, h⟩
    rw [List.length_singleton] at hhi
    exact absurd hc (by show ¬ pre.length < hi; omega)
  | cons_append x l y ih =>
    have hlen : (x :: (l ++ [y])).length = l.length + 2 := by
      rw [List.length_cons, List.length_append, List.length_singleton]
    rw [hlen] at hhi hfuel
    have hshape : ∀ x y : α, pre ++ x :: (l ++ [y]) ++ post = (pre ++ x :: l) ++ y :: post := fun x y => by
      simp only [List.append_assoc, List.cons_append, List.nil_append]
    have hback : ∀ x : α, (pre ++ x :: l).length = hi := fun x => by
      rw [List.length_append, List.length_cons]
      omega
    have hfront : ∀ x y : α, pre ++ x :: (l ++ [y]) ++ post = pre ++ x :: (l ++ y :: post) := fun x y => by
      simp only [List.append_assoc, List.cons_append, List.nil_append]
    have hx : b.load pre.length = some x := by
      rw [hfront] at h
      exact h.load
    have hy : b.load hi = some y := by
      rw [hshape] at h
      exact hback x ▸ h.load
    rw [hfront] at h
    obtain ⟨b₁, hstore₁, hcap₁, h₁⟩ := h.replace y
    rw [← hfront, hshape] at h₁
    obtain ⟨b₂, hstore₂, hcap₂, h₂⟩ := h₁.replace x
    rw [hback] at hstore₂
    have hround : swap (Pair.mk b pre.length hi) = some ⟨b₂, pre.length + 1, hi - 1⟩ := by
      unfold swap
      simp only [hx, hy, hstore₁, hstore₂, Option.bind_eq_bind, Option.bind_some, Option.pure_def]
    have h₂' : Holds b₂ ((pre ++ [y]) ++ l ++ (x :: post)) := by
      simpa only [List.append_assoc, List.cons_append, List.nil_append] using h₂
    have hpre : (pre ++ [y]).length = pre.length + 1 := by
      rw [List.length_append, List.length_singleton]
    have hmid : (pre ++ [y]).length + l.length = hi - 1 + 1 := by
      rw [hpre]
      omega
    obtain ⟨g, rfl⟩ := Nat.exists_eq_succ_of_ne_zero (show f ≠ 0 by omega)
    obtain ⟨s, hrun, hcap, hheld⟩ := ih h₂' hmid g (by omega)
    rw [hpre] at hrun
    refine ⟨s, ?_, hcap.trans (hcap₂.trans hcap₁), ?_⟩
    · refine (loop_round (s := Pair.mk b pre.length hi) ?_ hround _).trans hrun
      show pre.length < hi
      omega
    · simpa only [List.reverse_cons, List.reverse_append, List.reverse_nil, List.append_assoc, List.cons_append,
        List.nil_append] using hheld

/-- The first cells, up to `hi`, are reversed. -/
theorem reverse (h : Holds b (mid ++ post)) {hi : Nat} (hhi : mid.length = hi + 1) (hfuel : mid.length < fuel) :
    ∃ b', Buffer.reverse fuel b 0 hi = some b' ∧ b'.cap = b.cap ∧ Holds b' (mid.reverse ++ post) := by
  have hlen : ([] : List α).length + mid.length = hi + 1 := by
    rw [List.length_nil, Nat.zero_add]
    exact hhi
  obtain ⟨s, hloop, hcap, hheld⟩ := reverse_loop h hlen hfuel
  refine ⟨s.buf, ?_, hcap, hheld⟩
  exact congrArg (Option.map Pair.buf) hloop

end Holds

end Buffer

end Mos.Lib
