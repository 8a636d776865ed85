import Mathlib.Data.List.Basic
import Mathlib.Data.List.TakeWhile

/-!
# The parts of a list between separators

`parts a l` are the maximal stretches of `l` without `a`, none of them empty. Separators in
front and repeated ones make no difference, and a scan that takes one stretch at a time and
then skips separators finds the parts in order (`parts_scan`).
-/

namespace Mos.Lib

variable {α : Type} [DecidableEq α] {a : α}

def parts (a : α) (l : List α) : List (List α) := (l.splitOn a).filter (· ≠ [])

theorem parts_nil : parts a [] = [] := by
  unfold parts
  rw [List.splitOn_nil]
  rfl

theorem parts_cons_self (l : List α) : parts a (a :: l) = parts a l := by
  unfold parts
  rw [← List.nil_append (a :: l), List.splitOn_append_cons_self_of_not_mem List.not_mem_nil,
    List.filter_cons_of_neg (by simp)]

/-- Separators in front do not matter. -/
theorem parts_skip (l : List α) : parts a (l.dropWhile (· = a)) = parts a l := by
  induction l with
  | nil => rfl
  | cons b l ih =>
    by_cases hb : b = a
    · rw [List.dropWhile_cons_of_pos (p := (· = a)) (decide_eq_true hb), ih, hb, parts_cons_self]
    · rw [List.dropWhile_cons_of_neg (p := (· = a)) (by simpa using hb)]

/-- The first part, and those behind it. -/
theorem parts_scan {l : List α} (hl : l.takeWhile (· ≠ a) ≠ []) :
    parts a l = l.takeWhile (· ≠ a) :: parts a ((l.dropWhile (· ≠ a)).dropWhile (· = a)) := by
  have hnot : a ∉ l.takeWhile (· ≠ a) := fun hmem => by
    simpa using List.mem_takeWhile_imp hmem
  rw [parts_skip]
  conv_lhs => rw [← List.takeWhile_append_dropWhile (p := (· ≠ a)) (l := l)]
  cases hrest : l.dropWhile (· ≠ a) with
  | nil =>
    rw [List.append_nil, parts_nil]
    unfold parts
    rw [List.splitOn_eq_singleton hnot, List.filter_cons_of_pos (by simpa using hl), List.filter_nil]
  | cons b rest =>
    -- what stops the stretch is a separator
    obtain rfl : b = a := by
      have hstop := List.head?_dropWhile_not (· ≠ a) l
      rw [hrest] at hstop
      simpa using hstop
    rw [parts_cons_self]
    unfold parts
    rw [List.splitOn_append_cons_self_of_not_mem hnot, List.filter_cons_of_pos (by simpa using hl)]

/-- Behind the separators that are skipped there is none. -/
theorem head?_skip (l : List α) : (l.dropWhile (· = a)).head? ≠ some a := by
  intro hhead
  have hstop := List.head?_dropWhile_not (· = a) l
  rw [hhead] at hstop
  simp at hstop

theorem parts_eq_nil {l : List α} (hhead : l.head? ≠ some a) : parts a l = [] ↔ l = [] := by
  refine ⟨fun hnil => ?_, fun hnil => by rw [hnil, parts_nil]⟩
  cases l with
  | nil => rfl
  | cons b l =>
    have hb : b ≠ a := fun heq => hhead (by rw [heq]; rfl)
    rw [parts_scan (by rw [List.takeWhile_cons_of_pos (by simpa using hb)]; exact nofun)] at hnil
    cases hnil

theorem ne_nil_of_mem_parts {l p : List α} (hp : p ∈ parts a l) : p ≠ [] := by
  have h := List.of_mem_filter hp
  simpa using h

end Mos.Lib
