import Mos.Lib.Except

/-!
# When a program succeeds

A program in `StateT σ (Except ε)` that succeeds exactly when a condition holds, known before
it starts, and stops with an error of a given kind otherwise. The conditions of the parts are
joined by `Exactly.bind`; the second part may rely on what the first has left.
-/

namespace Mos.Lib

/-- From `s`, the program `x` returns with `Q` if `P` holds, and stops with a `bad` error if not. -/
structure Exactly {σ ε α : Type} (bad : ε → Prop) (x : StateT σ (Except ε) α) (s : σ) (P : Prop)
    (Q : α → σ → Prop) : Prop where
  run : P → ∃ a s', x s = .ok (a, s') ∧ Q a s'
  stop : ¬ P → ∃ e, x s = .error e ∧ bad e

namespace Exactly

variable {σ ε α β : Type} {bad : ε → Prop} {x : StateT σ (Except ε) α} {f : α → StateT σ (Except ε) β}
  {s s' : σ} {P P' : Prop} {Q Q' : α → σ → Prop} {R : β → σ → Prop}

/-- A program that always succeeds. -/
theorem of_ok {a : α} (hrun : x s = .ok (a, s')) (hQ : Q a s') : Exactly bad x s True Q :=
  ⟨fun _ => ⟨a, s', hrun, hQ⟩, fun h => absurd trivial h⟩

/-- One that never does. -/
theorem of_error {e : ε} (hrun : x s = .error e) (h : bad e) : Exactly bad x s False Q :=
  ⟨fun h => h.elim, fun _ => ⟨e, hrun, h⟩⟩

/-- A program that has returned. -/
theorem ok {a : α} (h : Exactly bad x s P Q) (hrun : x s = .ok (a, s')) : Q a s' := by
  by_cases hp : P
  · obtain ⟨a', s₁, hrun', hq⟩ := h.run hp
    obtain ⟨rfl, rfl⟩ := Prod.mk.inj (Except.ok.inj (hrun'.symm.trans hrun))
    exact hq
  · obtain ⟨e, hstop, -⟩ := h.stop hp
    cases hstop.symm.trans hrun

/-- The condition is decided. -/
theorem of_cases (hrun : P → Exactly bad x s True Q) (hstop : ¬ P → Exactly bad x s False Q) :
    Exactly bad x s P Q :=
  ⟨fun h => (hrun h).run trivial, fun h => (hstop h).stop id⟩

theorem congr (h : Exactly bad x s P Q) (hP : P' ↔ P) : Exactly bad x s P' Q :=
  ⟨fun h' => h.run (hP.mp h'), fun h' => h.stop fun hp => h' (hP.mpr hp)⟩

theorem mono (h : Exactly bad x s P Q) (hQ : ∀ a s', Q a s' → Q' a s') : Exactly bad x s P Q' := by
  refine ⟨fun hp => ?_, h.stop⟩
  obtain ⟨a, s', hrun, hq⟩ := h.run hp
  exact ⟨a, s', hrun, hQ a s' hq⟩

/-- **Both parts succeed, or one of them stops.** -/
theorem bind (hx : Exactly bad x s P Q) (hf : P → ∀ a s', Q a s' → Exactly bad (f a) s' P' R) :
    Exactly bad (x >>= f) s (P ∧ P') R := by
  constructor
  · intro ⟨hp, hp'⟩
    obtain ⟨a, s', hrun, hq⟩ := hx.run hp
    obtain ⟨b, s₂, hrun', hr⟩ := (hf hp a s' hq).run hp'
    exact ⟨b, s₂, (run_bind hrun f).trans hrun', hr⟩
  · intro hn
    by_cases hp : P
    · obtain ⟨a, s', hrun, hq⟩ := hx.run hp
      obtain ⟨e, hstop, he⟩ := (hf hp a s' hq).stop fun hp' => hn ⟨hp, hp'⟩
      exact ⟨e, (run_bind hrun f).trans hstop, he⟩
    · obtain ⟨e, hstop, he⟩ := hx.stop hp
      exact ⟨e, run_bind_error hstop f, he⟩

/-- A first part that is known to succeed. -/
theorem bind_ok {a : α} (hx : x s = .ok (a, s')) (h : Exactly bad (f a) s' P R) :
    Exactly bad (x >>= f) s P R := by
  refine ⟨fun hp => ?_, fun hp => ?_⟩
  · obtain ⟨b, s₂, hrun, hr⟩ := h.run hp
    exact ⟨b, s₂, (run_bind hx f).trans hrun, hr⟩
  · obtain ⟨e, hstop, he⟩ := h.stop hp
    exact ⟨e, (run_bind hx f).trans hstop, he⟩

/-- A second part that always succeeds. -/
theorem bind_run (hx : Exactly bad x s P Q) (hf : P → ∀ a s', Q a s' → Exactly bad (f a) s' True R) :
    Exactly bad (x >>= f) s P R :=
  (hx.bind hf).congr ⟨fun hp => ⟨hp, trivial⟩, And.left⟩

/-- A program that does there what another does. -/
theorem same {y : StateT σ (Except ε) α} (hy : Exactly bad y s P Q) (h : x s = y s) : Exactly bad x s P Q := by
  refine ⟨fun hp => ?_, fun hp => ?_⟩
  · rw [h]
    exact hy.run hp
  · rw [h]
    exact hy.stop hp

/-- A program that reads the state first. -/
theorem get {g : σ → StateT σ (Except ε) β} (h : Exactly bad (g s) s P R) :
    Exactly bad (MonadState.get >>= g) s P R :=
  bind_ok rfl h

end Exactly

end Mos.Lib
