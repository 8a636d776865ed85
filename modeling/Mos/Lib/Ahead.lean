import Mathlib.Algebra.Order.BigOperators.Group.List
import Mathlib.Algebra.Order.Ring.Nat
import Mathlib.Data.List.TakeWhile

/-!
# What is ahead of an element of a queue

`ahead e l` are the elements of the queue `l` in front of `e`. An element waits for the turns of
those ahead of it; `delay w skip e l` adds up the turns `w` of all of them but `skip`, whose turn
it is. A queue changes at its tail, or loses an element somewhere: neither lets an element that
stays wait longer.
-/

namespace Mos.Lib

variable {α : Type} [DecidableEq α]

/-- The elements in front of `e`. -/
def ahead (e : α) (l : List α) : List α := l.takeWhile (· ≠ e)

/-- The turns of the elements in front of `e`, but for `skip`. -/
def delay (w : α → Nat) (skip : Option α) (e : α) (l : List α) : Nat :=
  (((ahead e l).filter fun x => some x ≠ skip).map w).sum

theorem ahead_cons_self (e : α) (l : List α) : ahead e (e :: l) = [] := by
  simp [ahead]

theorem ahead_cons_of_ne {e x : α} (h : x ≠ e) (l : List α) : ahead e (x :: l) = x :: ahead e l := by
  simp [ahead, h]

theorem ahead_subset {e x : α} {l : List α} (h : x ∈ ahead e l) : x ∈ l ∧ x ≠ e :=
  ⟨(List.takeWhile_sublist _).mem h, by simpa using List.mem_takeWhile_imp h⟩

theorem ahead_append {e : α} {l : List α} (he : e ∈ l) (r : List α) :
    ahead e (l ++ r) = ahead e l := by
  induction l with
  | nil => cases he
  | cons x l ih =>
    by_cases hx : x = e
    · rw [hx, List.cons_append, ahead_cons_self, ahead_cons_self]
    · have hl : e ∈ l := (List.mem_cons.mp he).resolve_left (Ne.symm hx)
      rw [List.cons_append, ahead_cons_of_ne hx, ahead_cons_of_ne hx, ih hl]

theorem ahead_erase {e x : α} (hx : x ≠ e) (l : List α) :
    ahead e (l.erase x) = (ahead e l).erase x := by
  induction l with
  | nil => rfl
  | cons y l ih =>
    by_cases hy : y = x
    · rw [hy, List.erase_cons_head, ahead_cons_of_ne hx, List.erase_cons_head]
    · rw [List.erase_cons_tail (by simpa using hy)]
      by_cases hye : y = e
      · rw [hye, ahead_cons_self, ahead_cons_self]
        rfl
      · rw [ahead_cons_of_ne hye, ahead_cons_of_ne hye, ih, List.erase_cons_tail (by simpa using hy)]

section Delay

variable {w w' : α → Nat} {skip : Option α} {e x : α} {l l' : List α}

theorem delay_congr (hw : ∀ x ∈ l, w' x = w x) : delay w' skip e l = delay w skip e l := by
  have hmap : ((ahead e l).filter fun x => some x ≠ skip).map w' =
      ((ahead e l).filter fun x => some x ≠ skip).map w :=
    List.map_congr_left fun x hx => hw x (ahead_subset (List.mem_of_mem_filter hx)).1
  unfold delay
  rw [hmap]

theorem delay_le_of_sublist (h : (ahead e l').Sublist (ahead e l)) :
    delay w skip e l' ≤ delay w skip e l :=
  ((h.filter _).map w).sum_le_sum fun _ _ => Nat.zero_le _

/-- An element at the tail delays nobody. -/
theorem delay_append (he : e ∈ l) (r : List α) : delay w skip e (l ++ r) = delay w skip e l := by
  unfold delay
  rw [ahead_append he]

/-- Without an element the others wait no longer. -/
theorem delay_erase_le (hx : x ≠ e) : delay w skip e (l.erase x) ≤ delay w skip e l := by
  refine delay_le_of_sublist ?_
  rw [ahead_erase hx]
  exact List.erase_sublist

/-- One that is not in the queue need not be skipped. -/
theorem delay_skip_notMem (h : ∀ x ∈ l, skip ≠ some x) : delay w skip e l = delay w none e l := by
  have hfilter : (ahead e l).filter (fun x => some x ≠ skip) =
      (ahead e l).filter fun x => some x ≠ none := by
    refine List.filter_congr fun x hx => ?_
    have hne := h x (ahead_subset hx).1
    simp [Ne.symm hne]
  unfold delay
  rw [hfilter]

/-- The one that is skipped goes to the tail. -/
theorem delay_rotate (hl : l.Nodup) (he : e ∈ l) (hx : x ≠ e) :
    delay w (some x) e l = delay w none e (l.erase x ++ [x]) := by
  have hmem : e ∈ l.erase x := (List.mem_erase_of_ne (Ne.symm hx)).mpr he
  have hnodup : (ahead e l).Nodup := (List.takeWhile_sublist _).nodup hl
  have hfilter : (ahead e l).filter (fun y => some y ≠ some x) = (ahead e l).erase x := by
    rw [hnodup.erase_eq_filter]
    refine List.filter_congr fun y _ => ?_
    by_cases hy : y = x <;> simp [hy]
  rw [delay_append hmem]
  unfold delay
  rw [hfilter, ahead_erase hx]
  congr 2
  exact (List.filter_eq_self.mpr fun _ _ => by simp).symm

/-- The one at the head gets its turn. -/
theorem delay_head (hl : (x :: l).Nodup) (hx : x ≠ e) :
    delay w none e (x :: l) = w x + delay w (some x) e (x :: l) := by
  have hrest : ∀ y ∈ ahead e l, y ≠ x := by
    rintro y hy rfl
    exact (List.nodup_cons.mp hl).1 (ahead_subset hy).1
  have hfilter : (ahead e l).filter (fun y => some y ≠ some x) =
      (ahead e l).filter fun y => some y ≠ none := by
    refine List.filter_congr fun y hy => ?_
    simp [hrest y hy]
  unfold delay
  rw [ahead_cons_of_ne hx, List.filter_cons_of_pos (by simp), List.filter_cons_of_neg (by simp),
    hfilter, List.map_cons, List.sum_cons]

end Delay

end Mos.Lib
