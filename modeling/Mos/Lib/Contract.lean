import Mos.Lib.Except

/-!
# Contracts of programs with a state

Programs in `StateT σ (Except ε)` that keep an invariant. A `Contract` fixes the
invariant, about the state and a ghost value that no program sees, what a program
may change, and the errors it may stop with; `Runs C x s g Q` says that `x` keeps
to it from the state `s`, and that `Q` holds of what it returns. The rules follow
the shape of the program: `pure`, `bind`, a read of the state, a test, a loop over
a range, and a part that works on a component of the state (`lift`).
-/

namespace Mos.Lib

/-- An invariant with a ghost value, how state and ghost value may move, and the errors
that are allowed from a state. -/
structure Contract (σ γ ε : Type) where
  inv : σ → γ → Prop
  moves : σ → γ → σ → γ → Prop
  allowed : σ → ε → Prop
  refl : ∀ s g, moves s g s g
  trans : ∀ {s g s₁ g₁ s₂ g₂}, moves s g s₁ g₁ → moves s₁ g₁ s₂ g₂ → moves s g s₂ g₂
  back : ∀ {s g s₁ g₁ e}, moves s g s₁ g₁ → allowed s₁ e → allowed s e

variable {σ τ γ ε α β : Type}

/-- From `s`, with the ghost value `g`, the program `x` stops with an allowed error, or
returns with the invariant, and with `Q`. -/
def Runs (C : Contract σ γ ε) (x : StateT σ (Except ε) α) (s : σ) (g : γ) (Q : α → σ → γ → Prop) : Prop :=
  match x s with
  | .ok (a, s') => ∃ g', C.inv s' g' ∧ C.moves s g s' g' ∧ Q a s' g'
  | .error e => C.allowed s e

namespace Runs

variable {C : Contract σ γ ε} {x : StateT σ (Except ε) α} {f : α → StateT σ (Except ε) β} {s s' : σ}
  {g : γ} {Q : α → σ → γ → Prop} {R : β → σ → γ → Prop}

/-- A program whose result is known. -/
theorem of_ok {a : α} {g' : γ} (hrun : x s = .ok (a, s')) (hinv : C.inv s' g')
    (hmoves : C.moves s g s' g') (hQ : Q a s' g') : Runs C x s g Q := by
  unfold Runs
  rw [hrun]
  exact ⟨g', hinv, hmoves, hQ⟩

/-- The same for a contract without a ghost value. -/
theorem of_unit {C : Contract σ Unit ε} {a : α} {Q : α → σ → Unit → Prop} (hrun : x s = .ok (a, s'))
    (hinv : C.inv s' ()) (hmoves : C.moves s () s' ()) (hQ : Q a s' ()) : Runs C x s () Q :=
  of_ok hrun hinv hmoves hQ

/-- One that leaves the state alone. -/
theorem of_same {a : α} (hrun : x s = .ok (a, s)) (hinv : C.inv s g) (hQ : Q a s g) : Runs C x s g Q :=
  of_ok hrun hinv (C.refl s g) hQ

theorem of_error {e : ε} (hrun : x s = .error e) (h : C.allowed s e) : Runs C x s g Q := by
  unfold Runs
  rw [hrun]
  exact h

theorem pure {a : α} (hinv : C.inv s g) (hQ : Q a s g) :
    Runs C (Pure.pure a : StateT σ (Except ε) α) s g Q :=
  of_same rfl hinv hQ

theorem ok {a : α} (h : Runs C x s g Q) (hrun : x s = .ok (a, s')) :
    ∃ g', C.inv s' g' ∧ C.moves s g s' g' ∧ Q a s' g' := by
  unfold Runs at h
  rw [hrun] at h
  exact h

theorem error {e : ε} (h : Runs C x s g Q) (hrun : x s = .error e) : C.allowed s e := by
  unfold Runs at h
  rw [hrun] at h
  exact h

theorem mono {Q' : α → σ → γ → Prop} (h : Runs C x s g Q)
    (hQ : ∀ a s' g', C.inv s' g' → C.moves s g s' g' → Q a s' g' → Q' a s' g') : Runs C x s g Q' := by
  cases hx : x s with
  | error e => exact of_error hx (h.error hx)
  | ok p =>
    obtain ⟨a, s'⟩ := p
    obtain ⟨g', hinv, hmoves, hq⟩ := h.ok hx
    exact of_ok hx hinv hmoves (hQ a s' g' hinv hmoves hq)

/-- The result is the one of this run. -/
theorem and_run (h : Runs C x s g Q) : Runs C x s g fun a s' g' => Q a s' g' ∧ x s = .ok (a, s') := by
  cases hx : x s with
  | error e => exact of_error hx (h.error hx)
  | ok p =>
    obtain ⟨a, s'⟩ := p
    obtain ⟨g', hinv, hmoves, hq⟩ := h.ok hx
    exact of_ok hx hinv hmoves ⟨hq, rfl⟩

theorem bind (h : Runs C x s g Q)
    (hf : ∀ a s' g', C.inv s' g' → C.moves s g s' g' → Q a s' g' → Runs C (f a) s' g' R) :
    Runs C (x >>= f) s g R := by
  cases hx : x s with
  | error e => exact of_error (run_bind_error hx f) (h.error hx)
  | ok p =>
    obtain ⟨a, s₁⟩ := p
    obtain ⟨g₁, hinv, hmoves, hq⟩ := h.ok hx
    have hrest := hf a s₁ g₁ hinv hmoves hq
    cases hy : f a s₁ with
    | error e => exact of_error ((run_bind hx f).trans hy) (C.back hmoves (hrest.error hy))
    | ok q =>
      obtain ⟨b, s₂⟩ := q
      obtain ⟨g₂, hinv₂, hmoves₂, hr⟩ := hrest.ok hy
      exact of_ok ((run_bind hx f).trans hy) hinv₂ (C.trans hmoves hmoves₂) hr

/-- The first two steps together. -/
theorem bind₂ {δ : Type} {y : β → StateT σ (Except ε) δ} {Q : β → σ → γ → Prop}
    {R : δ → σ → γ → Prop} (h : Runs C (x >>= f) s g Q)
    (hf : ∀ b s' g', C.inv s' g' → C.moves s g s' g' → Q b s' g' → Runs C (y b) s' g' R) :
    Runs C (x >>= fun a => f a >>= y) s g R := by
  rw [← LawfulMonad.bind_assoc]
  exact h.bind hf

/-- A step that is known not to touch the state. -/
theorem bind_same {a : α} (hx : x s = .ok (a, s)) (h : Runs C (f a) s g R) :
    Runs C (x >>= f) s g R := by
  unfold Runs
  rw [run_bind hx]
  exact h

theorem get_bind {f : σ → StateT σ (Except ε) β} (h : Runs C (f s) s g R) :
    Runs C (MonadState.get >>= f) s g R :=
  bind_same rfl h

theorem ite {c : Prop} [Decidable c] {y : StateT σ (Except ε) α} (hx : c → Runs C x s g Q)
    (hy : ¬ c → Runs C y s g Q) : Runs C (if c then x else y) s g Q := by
  split_ifs with hc
  · exact hx hc
  · exact hy hc

/-- **Loop rule.** -/
theorem forM_range {f : Nat → StateT σ (Except ε) PUnit} (I : Nat → σ → γ → Prop) (n : Nat)
    (hinv : C.inv s g) (h0 : I 0 s g)
    (hstep : ∀ i < n, ∀ s g, C.inv s g → I i s g → Runs C (f i) s g fun _ s' g' => I (i + 1) s' g') :
    Runs C ((List.range n).forM f) s g fun _ s' g' => I n s' g' := by
  induction n with
  | zero => exact of_same rfl hinv h0
  | succ n ih =>
    rw [List.range_succ, List.forM_eq_forM, List.forM_append]
    refine (ih fun i hi => hstep i (Nat.lt_succ_of_lt hi)).bind ?_
    intro _ s₁ g₁ hinv₁ _ hI
    rw [List.forM_cons]
    refine (hstep n (Nat.lt_succ_self n) s₁ g₁ hinv₁ hI).bind ?_
    intro _ s₂ g₂ hinv₂ _ hI₂
    exact pure hinv₂ hI₂

end Runs

/-- The contract of a component of the state. -/
def Contract.on (C : Contract σ γ ε) (get : τ → σ) : Contract τ γ ε where
  inv t := C.inv (get t)
  moves t g t' g' := C.moves (get t) g (get t') g'
  allowed t := C.allowed (get t)
  refl t g := C.refl (get t) g
  trans h h' := C.trans h h'
  back h h' := C.back h h'

/-- A program that runs `x` on a component of its state, with what is known of the rest. -/
theorem Runs.lift {C : Contract σ γ ε} {get : τ → σ} {x : StateT σ (Except ε) α}
    {y : StateT τ (Except ε) α} {t : τ} {g : γ} {Q : α → σ → γ → Prop} {P : τ → Prop}
    (hok : ∀ a s', x (get t) = .ok (a, s') → ∃ t', y t = .ok (a, t') ∧ get t' = s' ∧ P t')
    (herror : ∀ e, x (get t) = .error e → y t = .error e) (h : Runs C x (get t) g Q) :
    Runs (C.on get) y t g fun a t' g' => Q a (get t') g' ∧ P t' := by
  cases hx : x (get t) with
  | error e => exact of_error (herror e hx) (h.error hx)
  | ok p =>
    obtain ⟨a, s'⟩ := p
    obtain ⟨t', hy, rfl, hP⟩ := hok a s' hx
    obtain ⟨g', hinv, hmoves, hq⟩ := h.ok hx
    exact of_ok (C := C.on get) hy hinv hmoves ⟨hq, hP⟩

end Mos.Lib
