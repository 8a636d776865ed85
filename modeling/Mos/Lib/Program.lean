import Mathlib.Data.List.Basic

/-!
# Programs that make requests

A program asks its surroundings for something, goes on with the answer, and ends with a
result or is aborted. `Runs` is what it does when the surroundings answer as `step` allows:
the requests and answers on the way, the result, and the state that is left.

Main results:

* `Runs.bind_cases` and `Runs.bind` — a run of two programs, one after the other;
* `Runs.sends` — all requests of a run are of the kind the program sends;
* `Runs.forM` — a loop whose rounds can be run can be run.
-/

namespace Mos.Lib

/-- A program with requests from `Req` and answers of the types `Ans`. -/
inductive Program (Req : Type) (Ans : Req → Type) (α : Type) where
  | ret (a : α)
  | abort
  | ask (req : Req) (next : Ans req → Program Req Ans α)

namespace Program

variable {Req : Type} {Ans : Req → Type} {α β σ : Type}

def bind : Program Req Ans α → (α → Program Req Ans β) → Program Req Ans β
  | .ret a, f => f a
  | .abort, _ => .abort
  | .ask req next, f => .ask req fun x => (next x).bind f

instance : Monad (Program Req Ans) where
  pure := .ret
  bind := bind

/-- One request. -/
def request (req : Req) : Program Req Ans (Ans req) := .ask req .ret

/-- All requests of the program, whatever the answers, are in `P`. -/
def Sends (P : Req → Prop) : Program Req Ans α → Prop
  | .ret _ => True
  | .abort => True
  | .ask req next => P req ∧ ∀ x, (next x).Sends P

theorem Sends.bind {P : Req → Prop} {p : Program Req Ans α} {f : α → Program Req Ans β} (hp : p.Sends P)
    (hf : ∀ a, (f a).Sends P) : (p >>= f).Sends P := by
  induction p with
  | ret a => exact hf a
  | abort => trivial
  | ask req next ih => exact ⟨hp.1, fun x => ih x (hp.2 x)⟩

theorem Sends.forM {ι : Type} {P : Req → Prop} {f : ι → Program Req Ans Unit} (l : List ι)
    (hf : ∀ i ∈ l, (f i).Sends P) : (l.forM f).Sends P := by
  induction l with
  | nil => trivial
  | cons i l ih =>
    exact (hf i List.mem_cons_self).bind fun _ => ih fun j hj => hf j (List.mem_cons_of_mem i hj)

/-- A run from `s` to `s'`, with the requests and answers in order; the result is `none` if
the program aborts. -/
inductive Runs (step : σ → (req : Req) → Ans req → σ → Prop) :
    σ → Program Req Ans α → List (Σ req, Ans req) → Option α → σ → Prop where
  | ret (s : σ) (a : α) : Runs step s (.ret a) [] (some a) s
  | abort (s : σ) : Runs step s .abort [] none s
  | ask {s s₁ s' : σ} {req : Req} {next : Ans req → Program Req Ans α} {x : Ans req}
      {tr : List (Σ req, Ans req)} {out : Option α} : step s req x s₁ → Runs step s₁ (next x) tr out s' →
      Runs step s (.ask req next) (⟨req, x⟩ :: tr) out s'

namespace Runs

variable {step : σ → (req : Req) → Ans req → σ → Prop} {s s' : σ} {p : Program Req Ans α}
  {f : α → Program Req Ans β} {tr : List (Σ req, Ans req)}

/-- The first program has ended, and the second has run; or the first was aborted. -/
theorem bind_cases {out : Option β} (h : Runs step s (p >>= f) tr out s') :
    (∃ a s₁ tr₁ tr₂, Runs step s p tr₁ (some a) s₁ ∧ Runs step s₁ (f a) tr₂ out s' ∧ tr = tr₁ ++ tr₂) ∨
      (out = none ∧ Runs step s p tr none s') := by
  induction p generalizing s tr with
  | ret a => exact Or.inl ⟨a, s, [], tr, .ret s a, h, rfl⟩
  | abort =>
    cases h
    exact Or.inr ⟨rfl, .abort _⟩
  | ask req next ih =>
    cases h with
    | ask hstep hrest =>
      rcases ih _ hrest with ⟨a, s₁, tr₁, tr₂, h₁, h₂, rfl⟩ | ⟨hout, h₁⟩
      · exact Or.inl ⟨a, s₁, _, tr₂, .ask hstep h₁, h₂, rfl⟩
      · exact Or.inr ⟨hout, .ask hstep h₁⟩

theorem bind {a : α} {s₁ : σ} {tr₁ tr₂ : List (Σ req, Ans req)} {out : Option β}
    (h₁ : Runs step s p tr₁ (some a) s₁) (h₂ : Runs step s₁ (f a) tr₂ out s') :
    Runs step s (p >>= f) (tr₁ ++ tr₂) out s' := by
  generalize hout : some a = o at h₁
  induction h₁ with
  | ret s b =>
    cases hout
    exact h₂
  | abort s => cases hout
  | ask hstep _ ih => exact .ask hstep (ih h₂ hout)

/-- A request, and what follows with the answer. -/
theorem request {req : Req} {x : Ans req} {f : Ans req → Program Req Ans β} {s₁ : σ} {out : Option β}
    (hstep : step s req x s₁) (hrest : Runs step s₁ (f x) tr out s') :
    Runs step s (Program.request req >>= f) (⟨req, x⟩ :: tr) out s' :=
  .ask hstep hrest

theorem ite_pos {c : Prop} [Decidable c] {q : Program Req Ans α} {out : Option α} (hc : c)
    (h : Runs step s p tr out s') : Runs step s (if c then p else q) tr out s' := by
  rw [if_pos hc]
  exact h

theorem ite_neg {c : Prop} [Decidable c] {q : Program Req Ans α} {out : Option α} (hc : ¬ c)
    (h : Runs step s q tr out s') : Runs step s (if c then p else q) tr out s' := by
  rw [if_neg hc]
  exact h

theorem bind_abort (h : Runs step s p tr none s') : Runs step s (p >>= f) tr none s' := by
  generalize hout : (none : Option α) = o at h
  induction h with
  | ret s b => cases hout
  | abort s => exact .abort s
  | ask hstep _ ih => exact .ask hstep (ih hout)

/-- The requests of a run are those the program sends. -/
theorem sends {P : Req → Prop} {out : Option α} (h : Runs step s p tr out s') (hp : p.Sends P) :
    ∀ ev ∈ tr, P ev.1 := by
  induction h with
  | ret s a => exact fun _ hev => absurd hev List.not_mem_nil
  | abort s => exact fun _ hev => absurd hev List.not_mem_nil
  | ask _ _ ih =>
    intro ev hev
    rcases List.mem_cons.mp hev with rfl | hev
    · exact hp.1
    · exact ih (hp.2 _) ev hev

/-- What every step keeps. -/
theorem keeps {I : σ → Prop} (hstep : ∀ s req x s', I s → step s req x s' → I s') {out : Option α}
    (h : Runs step s p tr out s') (hs : I s) : I s' := by
  induction h with
  | ret s a => exact hs
  | abort s => exact hs
  | ask hask _ ih => exact ih (hstep _ _ _ _ hs hask)

/-- Rounds that leave the state alone or are aborted make such a loop. -/
theorem forM {ι : Type} {f : ι → Program Req Ans Unit} {l : List ι}
    (hf : ∀ i ∈ l, ∃ tr s', Runs step s (f i) tr none s' ∨ s' = s ∧ Runs step s (f i) tr (some ()) s') :
    ∃ tr s', Runs step s (l.forM f) tr none s' ∨ s' = s ∧ Runs step s (l.forM f) tr (some ()) s' := by
  induction l with
  | nil => exact ⟨[], s, Or.inr ⟨rfl, .ret s ()⟩⟩
  | cons i l ih =>
    obtain ⟨tr₁, s₁, h₁⟩ := hf i List.mem_cons_self
    obtain ⟨tr₂, s₂, h₂⟩ := ih fun j hj => hf j (List.mem_cons_of_mem i hj)
    rcases h₁ with h₁ | ⟨rfl, h₁⟩
    · exact ⟨tr₁, s₁, Or.inl h₁.bind_abort⟩
    · rcases h₂ with h₂ | ⟨rfl, h₂⟩
      · exact ⟨tr₁ ++ tr₂, s₂, Or.inl (h₁.bind h₂)⟩
      · exact ⟨tr₁ ++ tr₂, s₂, Or.inr ⟨rfl, h₁.bind h₂⟩⟩

end Runs

end Program

end Mos.Lib
