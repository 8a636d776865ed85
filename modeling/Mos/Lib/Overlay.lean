import Mathlib.Logic.Function.Basic

/-!
# Writes to a map, one after another

`writeAll m ws` is the map `m` after the writes `ws`; a later write to a key
replaces an earlier one. A key that is not written keeps its value; what all
writes to a key have in common holds of the key at the end.
-/

namespace Mos.Lib

variable {K V : Type} [DecidableEq K]

def writeAll (m : K → V) (ws : List (K × V)) : K → V :=
  ws.foldl (fun m w => Function.update m w.1 w.2) m

theorem writeAll_cons (m : K → V) (w : K × V) (ws : List (K × V)) :
    writeAll m (w :: ws) = writeAll (Function.update m w.1 w.2) ws := rfl

theorem writeAll_append (m : K → V) (ws ws' : List (K × V)) :
    writeAll m (ws ++ ws') = writeAll (writeAll m ws) ws' :=
  List.foldl_append

theorem writeAll_of_notMem {k : K} {ws : List (K × V)} (h : ∀ w ∈ ws, w.1 ≠ k) (m : K → V) :
    writeAll m ws k = m k := by
  induction ws generalizing m with
  | nil => rfl
  | cons w ws ih =>
    rw [writeAll_cons, ih fun w' hw' => h w' (List.mem_cons_of_mem _ hw')]
    exact Function.update_of_ne (Ne.symm (h w List.mem_cons_self)) ..

/-- The value of a key depends on the old value of that key only. -/
theorem writeAll_congr {k : K} {m m' : K → V} (h : m k = m' k) (ws : List (K × V)) :
    writeAll m ws k = writeAll m' ws k := by
  induction ws generalizing m m' with
  | nil => exact h
  | cons w ws ih =>
    rw [writeAll_cons, writeAll_cons]
    refine ih ?_
    by_cases hk : k = w.1
    · rw [hk, Function.update_self, Function.update_self]
    · rw [Function.update_of_ne hk, Function.update_of_ne hk, h]

/-- What every write to a key satisfies holds of a key that is written. -/
theorem writeAll_of_forall {Q : V → Prop} {k : K} {ws : List (K × V)} (hex : ∃ w ∈ ws, w.1 = k)
    (h : ∀ w ∈ ws, w.1 = k → Q w.2) (m : K → V) : Q (writeAll m ws k) := by
  induction ws generalizing m with
  | nil =>
    obtain ⟨w, hw, -⟩ := hex
    cases hw
  | cons w ws ih =>
    have h' : ∀ w' ∈ ws, w'.1 = k → Q w'.2 := fun w' hw' => h w' (List.mem_cons_of_mem _ hw')
    rw [writeAll_cons]
    by_cases hlater : ∃ w' ∈ ws, w'.1 = k
    · exact ih hlater h' _
    · -- the first write is the only one
      have hnot : ∀ w' ∈ ws, w'.1 ≠ k := fun w' hw' hk => hlater ⟨w', hw', hk⟩
      obtain ⟨w', hw', hk⟩ := hex
      rcases List.mem_cons.mp hw' with rfl | hw'
      · rw [writeAll_of_notMem hnot, ← hk, Function.update_self]
        exact h _ List.mem_cons_self hk
      · exact absurd hk (hnot w' hw')

end Mos.Lib
