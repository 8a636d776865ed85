import Mathlib.Data.List.Basic

/-!
# Reasoning about `Except` programs

Rules for programs that may stop with an error: how a successful `bind` splits
(`bind_eq_ok`, and `run_bind_eq_ok` for one with a state), which errors a
program can raise (`Raises`), and an invariant rule for a `for` loop written as
a monadic fold over a range (`foldlM_range_ok`).
-/

namespace Mos.Lib

variable {ε α β : Type}

theorem ok_bind (a : α) (f : α → Except ε β) : (Except.ok a >>= f) = f a := rfl

theorem bind_eq_ok {x : Except ε α} {f : α → Except ε β} {b : β} :
    (x >>= f) = .ok b ↔ ∃ a, x = .ok a ∧ f a = .ok b := by
  cases x with
  | error e =>
    constructor
    · intro h
      cases h
    · intro ⟨a, h, _⟩
      cases h
  | ok a =>
    constructor
    · intro h
      exact ⟨a, rfl, h⟩
    · intro ⟨a', h, h'⟩
      obtain rfl := Except.ok.inj h
      exact h'

/-- `bind_eq_ok`, for programs with a state. -/
theorem run_bind_eq_ok {σ : Type} {x : StateT σ (Except ε) α} {f : α → StateT σ (Except ε) β}
    {s s₂ : σ} {b : β} :
    (x >>= f) s = .ok (b, s₂) ↔ ∃ a s₁, x s = .ok (a, s₁) ∧ f a s₁ = .ok (b, s₂) := by
  show (x s >>= fun p => f p.1 p.2) = _ ↔ _
  rw [bind_eq_ok]
  constructor
  · intro ⟨p, hx, hf⟩
    exact ⟨p.1, p.2, hx, hf⟩
  · intro ⟨a, s₁, hx, hf⟩
    exact ⟨(a, s₁), hx, hf⟩

theorem run_pure_eq_ok {σ : Type} {a b : α} {s s' : σ} :
    (pure a : StateT σ (Except ε) α) s = .ok (b, s') ↔ a = b ∧ s = s' := by
  show Except.ok (a, s) = .ok (b, s') ↔ _
  rw [Except.ok.injEq, Prod.mk.injEq]

/-- A first step that succeeds. -/
theorem run_bind {σ : Type} {x : StateT σ (Except ε) α} {s s₁ : σ} {a : α} (h : x s = .ok (a, s₁))
    (f : α → StateT σ (Except ε) β) : (x >>= f) s = f a s₁ := by
  show (x s >>= fun p => f p.1 p.2) = _
  rw [h]
  rfl

/-- A first step that fails. -/
theorem run_bind_error {σ : Type} {x : StateT σ (Except ε) α} {s : σ} {e : ε} (h : x s = .error e)
    (f : α → StateT σ (Except ε) β) : (x >>= f) s = .error e := by
  show (x s >>= fun p => f p.1 p.2) = _
  rw [h]
  rfl

theorem run_get {σ : Type} (f : σ → StateT σ (Except ε) β) (s : σ) : (get >>= f) s = f s s := rfl

/-- Every error of `x` satisfies `P`. -/
def Raises (P : ε → Prop) (x : Except ε α) : Prop := ∀ e, x = .error e → P e

namespace Raises

variable {P : ε → Prop} {x : Except ε α}

theorem ok (a : α) : Raises P (.ok a : Except ε α) := by
  intro e h
  cases h

theorem error {e : ε} (h : P e) : Raises P (.error e : Except ε α) := by
  intro e' h'
  obtain rfl := Except.error.inj h'
  exact h

theorem bind {f : α → Except ε β} (hx : Raises P x) (hf : ∀ a, x = .ok a → Raises P (f a)) :
    Raises P (x >>= f) := by
  cases x with
  | error e => exact error (hx e rfl)
  | ok a => exact hf a rfl

theorem ite {c : Prop} [Decidable c] {x y : Except ε α} (hx : c → Raises P x)
    (hy : ¬ c → Raises P y) : Raises P (if c then x else y) := by
  split_ifs with h
  · exact hx h
  · exact hy h

theorem foldlM {f : β → α → Except ε β} (hf : ∀ b a, Raises P (f b a)) (l : List α) (b : β) :
    Raises P (l.foldlM f b) := by
  induction l generalizing b with
  | nil => exact ok b
  | cons a l ih => exact bind (hf b a) (fun b' _ => ih b')

end Raises

/-- **Loop rule.** An invariant `I i` that holds before round `i` and is carried
on by each round holds after the last one. -/
theorem foldlM_range_ok {f : β → Nat → Except ε β} (I : Nat → β → Prop) (n : Nat) {b : β}
    (h0 : I 0 b) (hstep : ∀ i < n, ∀ b, I i b → ∃ b', f b i = .ok b' ∧ I (i + 1) b') :
    ∃ b', (List.range n).foldlM f b = .ok b' ∧ I n b' := by
  induction n with
  | zero => exact ⟨b, rfl, h0⟩
  | succ n ih =>
    obtain ⟨b₁, hb₁, hI₁⟩ := ih (fun i hi => hstep i (Nat.lt_succ_of_lt hi))
    obtain ⟨b₂, hb₂, hI₂⟩ := hstep n (Nat.lt_succ_self n) b₁ hI₁
    refine ⟨b₂, ?_, hI₂⟩
    rw [List.range_succ, List.foldlM_append, hb₁, bind_eq_ok]
    refine ⟨b₁, rfl, ?_⟩
    rw [List.foldlM_cons, hb₂]
    rfl

/-- The loop rule for a loop with a state that came to its end. -/
theorem forM_range_inv {σ : Type} {f : Nat → StateT σ (Except ε) PUnit} (I : Nat → σ → Prop) (n : Nat)
    {s s' : σ} (h0 : I 0 s)
    (hstep : ∀ i < n, ∀ s s', I i s → f i s = .ok (⟨⟩, s') → I (i + 1) s')
    (hrun : (List.range n).forM f s = .ok (⟨⟩, s')) : I n s' := by
  induction n generalizing s' with
  | zero =>
    cases hrun
    exact h0
  | succ n ih =>
    rw [List.range_succ, List.forM_eq_forM, List.forM_append] at hrun
    obtain ⟨_, s₁, hrun, hlast⟩ := run_bind_eq_ok.mp hrun
    rw [List.forM_cons] at hlast
    obtain ⟨_, s₂, hlast, hend⟩ := run_bind_eq_ok.mp hlast
    cases hend
    have hI := ih (fun i hi => hstep i (Nat.lt_succ_of_lt hi)) hrun
    exact hstep n (Nat.lt_succ_self n) s₁ s' hI hlast

end Mos.Lib
