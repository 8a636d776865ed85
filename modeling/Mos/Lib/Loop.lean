import Mathlib.Data.Option.Basic
import Mathlib.Tactic.SplitIfs

/-!
# While loops

`loop c b fuel s` is `while (c) s = b s` from the state `s`, for at most `fuel` tests of the
condition. The result is `none` if the tests do not suffice, or a round fails.

Main results:

* `loop_count` — a loop through numbered states, as long as the numbers stay below a bound;
* `loop_measure` — a loop with an invariant and a measure;
* `loop_never` — one whose condition never fails does not end;
* `loop_mono` — more tests do not change the result.
-/

namespace Mos.Lib

variable {σ : Type} {c : σ → Prop} [DecidablePred c] {b : σ → Option σ} {s s' : σ} {k m n : Nat}

def loop (c : σ → Prop) [DecidablePred c] (b : σ → Option σ) : Nat → σ → Option σ
  | 0, _ => none
  | fuel + 1, s => if c s then (b s).bind (loop c b fuel) else some s

theorem loop_done (h : ¬ c s) (n : Nat) : loop c b (n + 1) s = some s := if_neg h

theorem loop_round (h : c s) (hb : b s = some s') (n : Nat) : loop c b (n + 1) s = loop c b n s' := by
  rw [loop, if_pos h, hb]
  rfl

/-- **Loop rule.** A round from state `j` leads to state `j + w`, and not past `n`. -/
theorem loop_count (st : Nat → σ) {w : Nat} (hw : 0 < w)
    (hstep : ∀ j ≤ n, c (st j) → j + w ≤ n ∧ b (st j) = some (st (j + w))) (hk : k ≤ n) :
    ∃ j, k ≤ j ∧ j ≤ n ∧ ¬ c (st j) ∧ ∀ fuel, n - k < fuel → loop c b fuel (st k) = some (st j) := by
  generalize hd : n - k = d
  induction d using Nat.strongRecOn generalizing k with
  | ind d ih =>
    by_cases hc : c (st k)
    · obtain ⟨hle, hb⟩ := hstep k hk hc
      obtain ⟨j, hkj, hjn, hj, hrun⟩ := ih (n - (k + w)) (by omega) hle rfl
      refine ⟨j, by omega, hjn, hj, ?_⟩
      intro fuel hfuel
      obtain ⟨f, rfl⟩ := Nat.exists_eq_succ_of_ne_zero (Nat.ne_of_gt (Nat.zero_lt_of_lt hfuel))
      rw [loop_round hc hb]
      exact hrun f (by omega)
    · refine ⟨k, Nat.le_refl k, hk, hc, ?_⟩
      intro fuel hfuel
      obtain ⟨f, rfl⟩ := Nat.exists_eq_succ_of_ne_zero (Nat.ne_of_gt (Nat.zero_lt_of_lt hfuel))
      exact loop_done hc f

/-- **Invariant rule.** A loop whose rounds keep `I` and make `μ` smaller ends with `I`. -/
theorem loop_measure (I : σ → Prop) (μ : σ → Nat)
    (hstep : ∀ s, I s → c s → ∃ s', b s = some s' ∧ I s' ∧ μ s' < μ s) (h : I s) (hn : μ s < n) :
    ∃ s', loop c b n s = some s' ∧ I s' ∧ ¬ c s' := by
  induction n generalizing s with
  | zero => exact absurd hn (Nat.not_lt_zero _)
  | succ n ih =>
    by_cases hc : c s
    · obtain ⟨s₁, hb, hI, hμ⟩ := hstep s h hc
      rw [loop_round hc hb]
      exact ih hI (by omega)
    · exact ⟨s, loop_done hc n, h, hc⟩

/-- A loop that does not end. -/
theorem loop_never (I : σ → Prop) (hstep : ∀ s, I s → c s ∧ ∀ s', b s = some s' → I s') (h : I s) (n : Nat) :
    loop c b n s = none := by
  induction n generalizing s with
  | zero => rfl
  | succ n ih =>
    obtain ⟨hc, hnext⟩ := hstep s h
    rw [loop, if_pos hc]
    cases hb : b s with
    | none => rfl
    | some s₁ => exact ih (hnext s₁ hb)

theorem loop_mono (h : loop c b n s = some s') (hle : n ≤ m) : loop c b m s = some s' := by
  induction n generalizing s m with
  | zero => cases h
  | succ n ih =>
    obtain ⟨k, rfl⟩ := Nat.exists_eq_succ_of_ne_zero (Nat.ne_of_gt (Nat.lt_of_lt_of_le (Nat.succ_pos n) hle))
    rw [loop] at h ⊢
    split_ifs at h ⊢ with hc
    · cases hb : b s with
      | none =>
        rw [hb] at h
        cases h
      | some s₁ =>
        rw [hb] at h
        exact ih h (by omega)
    · exact h

end Mos.Lib
