import Mathlib.Data.Finset.Prod
import Mathlib.Data.Finset.Card
import Mathlib.Tactic.Push

/-!
# Reference counting over a finite set of slots

A *slot map* `g : ι → Option φ` says which object, if any, each slot of a
finite set `S` points to. `refCount S g f` is the number of slots that point
to `f`. Everything a reference-counted store does is a change of one slot, so
one equation, `refCount_update`, carries all of its bookkeeping; the other
lemmas are its special cases (a slot filled, emptied, kept on its object).
-/

namespace Mos.Lib

variable {ι φ : Type} [DecidableEq φ]

/-- The number of slots of `S` that point to `f`. -/
def refCount (S : Finset ι) (g : ι → Option φ) (f : φ) : Nat :=
  (S.filter fun x => g x = some f).card

theorem refCount_congr {S : Finset ι} {g g' : ι → Option φ}
    (h : ∀ x ∈ S, g x = g' x) (f : φ) : refCount S g f = refCount S g' f := by
  unfold refCount
  congr 1
  apply Finset.filter_congr
  intro x hx
  rw [h x hx]

theorem refCount_pos {S : Finset ι} {g : ι → Option φ} {f : φ} :
    0 < refCount S g f ↔ ∃ x ∈ S, g x = some f := by
  unfold refCount
  rw [Finset.card_pos]
  constructor
  · rintro ⟨x, hx⟩
    rw [Finset.mem_filter] at hx
    exact ⟨x, hx.1, hx.2⟩
  · rintro ⟨x, hx, hf⟩
    exact ⟨x, Finset.mem_filter.mpr ⟨hx, hf⟩⟩

theorem refCount_eq_zero {S : Finset ι} {g : ι → Option φ} {f : φ} :
    refCount S g f = 0 ↔ ∀ x ∈ S, g x ≠ some f := by
  constructor
  · intro h x hx hg
    have := refCount_pos.mpr ⟨x, hx, hg⟩
    omega
  · intro h
    by_contra hne
    obtain ⟨x, hx, hg⟩ := refCount_pos.mp (Nat.pos_of_ne_zero hne)
    exact h x hx hg

/-- An object only one slot points to. -/
theorem refCount_eq_one {S : Finset ι} {g : ι → Option φ} {f : φ} {x : ι} (hx : x ∈ S)
    (hg : g x = some f) (huniq : ∀ y ∈ S, g y = some f → y = x) : refCount S g f = 1 := by
  unfold refCount
  rw [Finset.card_eq_one]
  refine ⟨x, ?_⟩
  ext y
  rw [Finset.mem_filter, Finset.mem_singleton]
  constructor
  · intro hy
    exact huniq y hy.1 hy.2
  · intro hy
    exact hy ▸ ⟨hx, hg⟩

variable [DecidableEq ι]

/-- Two slots are two references. -/
theorem two_le_refCount {S : Finset ι} {g : ι → Option φ} {f : φ} {x y : ι} (hx : x ∈ S) (hy : y ∈ S)
    (hne : x ≠ y) (hgx : g x = some f) (hgy : g y = some f) : 2 ≤ refCount S g f := by
  unfold refCount
  rw [← Finset.card_pair hne]
  apply Finset.card_le_card
  intro z hz
  rw [Finset.mem_insert, Finset.mem_singleton] at hz
  rw [Finset.mem_filter]
  rcases hz with rfl | rfl
  · exact ⟨hx, hgx⟩
  · exact ⟨hy, hgy⟩

/-- A slot outside the counted set does not matter. -/
theorem refCount_update_of_notMem {S : Finset ι} {g : ι → Option φ} {x : ι}
    (hx : x ∉ S) (v : Option φ) (f : φ) :
    refCount S (Function.update g x v) f = refCount S g f := by
  apply refCount_congr
  intro y hy
  have hne : y ≠ x := fun h => hx (h ▸ hy)
  rw [Function.update_of_ne hne]

/-- **The bookkeeping equation.** Pointing slot `x` to `v` takes one
reference from what it pointed to and gives one to what it points to now. -/
theorem refCount_update {S : Finset ι} {g : ι → Option φ} {x : ι} (hx : x ∈ S)
    (v : Option φ) (f : φ) :
    refCount S (Function.update g x v) f + (if g x = some f then 1 else 0) =
      refCount S g f + (if v = some f then 1 else 0) := by
  have split : ∀ g' : ι → Option φ, refCount S g' f =
      refCount (S.erase x) g' f + (if g' x = some f then 1 else 0) := by
    intro g'
    unfold refCount
    rw [← Finset.insert_erase hx, Finset.filter_insert]
    split_ifs with h
    · rw [Finset.card_insert_of_notMem (by simp)]
      simp
    · simp
  have hrest : refCount (S.erase x) (Function.update g x v) f =
      refCount (S.erase x) g f := refCount_update_of_notMem (by simp) v f
  rw [split (Function.update g x v), split g, hrest, Function.update_self]
  omega

/-- Filling an empty slot with `f`. -/
theorem refCount_fill {S : Finset ι} {g : ι → Option φ} {x : ι} (hx : x ∈ S)
    (hg : g x = none) (f f' : φ) :
    refCount S (Function.update g x (some f)) f' =
      refCount S g f' + (if f = f' then 1 else 0) := by
  have := refCount_update hx (some f) f' (g := g)
  simpa [hg] using this

/-- Emptying a slot that points to `f`. -/
theorem refCount_empty {S : Finset ι} {g : ι → Option φ} {x : ι} (hx : x ∈ S)
    {f : φ} (hg : g x = some f) (f' : φ) :
    refCount S (Function.update g x none) f' + (if f = f' then 1 else 0) =
      refCount S g f' := by
  have := refCount_update hx none f' (g := g)
  simpa [hg] using this

end Mos.Lib
