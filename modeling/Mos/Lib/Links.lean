import Mathlib.Data.List.Basic
import Mathlib.Data.List.Nodup
import Mathlib.Logic.Function.Basic

/-!
# Chains of links

Elements linked through fields of their own. A field that points to an element is
the first field of a list head or the next field of an element. An element keeps
the address of the field that points to it, and a head can keep the address of the
field that ends its list. Any number of lists share one heap of links.

`Chain s p l` says that the links from field `p` on run through `l` and end there.

Main results:
* `Chain.link`, `Chain.unlink` : an element goes in at, or out of, any place
* `Chain.unique` : the links determine the elements
* `Chain.disjoint` : chains from different heads have no element in common
-/

namespace Mos.Lib

/-- The address of a field that points to an element. -/
inductive Field (ι α : Type) where
  | first (h : ι)
  | next (e : α)
  deriving DecidableEq, Repr

structure Links (ι α : Type) where
  val : Field ι α → Option α           -- `none` is the null pointer
  prev : α → Option (Field ι α)
  last : ι → Option (Field ι α)

namespace Links

variable {ι α : Type}

/-- The field that ends the chain of `l` started at `p`. -/
def endOf : Field ι α → List α → Field ι α
  | p, [] => p
  | _, e :: l => endOf (.next e) l

/-- From field `p` on, the links follow `l` to its end. -/
def Chain (s : Links ι α) : Field ι α → List α → Prop
  | p, [] => s.val p = none
  | p, e :: l => s.val p = some e ∧ s.prev e = some p ∧ Chain s (.next e) l

/-- Field `p` is not the next field of an element of `l`. -/
def Outside (p : Field ι α) (l : List α) : Prop :=
  ∀ x ∈ l, p ≠ .next x

theorem endOf_append (p : Field ι α) (l₁ l₂ : List α) :
    endOf p (l₁ ++ l₂) = endOf (endOf p l₁) l₂ := by
  induction l₁ generalizing p with
  | nil => rfl
  | cons e l₁ ih => exact ih (.next e)

theorem endOf_cases (p : Field ι α) (l : List α) :
    endOf p l = p ∨ ∃ x ∈ l, endOf p l = .next x := by
  induction l generalizing p with
  | nil => exact Or.inl rfl
  | cons e l ih =>
    refine Or.inr ?_
    rcases ih (.next e) with h | ⟨x, hx, h⟩
    · exact ⟨e, List.mem_cons_self, h⟩
    · exact ⟨x, List.mem_cons_of_mem e hx, h⟩

theorem first_ne_next (h : ι) (e : α) : Field.first h ≠ .next e :=
  fun hc => by cases hc

theorem outside_first (h : ι) (l : List α) : Outside (.first h) l :=
  fun x _ => first_ne_next h x

theorem outside_next {e : α} {l : List α} (he : e ∉ l) : Outside (ι := ι) (.next e) l := by
  intro x hx hc
  exact he (Field.next.inj hc ▸ hx)

theorem Outside.endOf {p : Field ι α} {l₁ l₂ : List α} (h : Outside p l₂)
    (hdisj : ∀ x ∈ l₁, x ∉ l₂) : Outside (endOf p l₁) l₂ := by
  rcases endOf_cases p l₁ with he | ⟨x, hx, he⟩
  · rw [he]
    exact h
  · rw [he]
    exact outside_next (hdisj x hx)

/-- A field outside of a chain is not the field that ends the chain, unless it starts it. -/
theorem Outside.ne_endOf_next {p : Field ι α} {e : α} {l : List α} (h : Outside p (e :: l)) :
    p ≠ Links.endOf (.next e) l := by
  intro hp
  rcases endOf_cases (.next e) l with he | ⟨x, hx, he⟩
  · exact h e List.mem_cons_self (hp.trans he)
  · exact h x (List.mem_cons_of_mem e hx) (hp.trans he)

namespace Chain

variable {s s' : Links ι α} {p : Field ι α} {e : α} {l l₁ l₂ : List α}

/-- The field that ends a part of a chain points to what follows. -/
theorem val_endOf (h : Chain s p (l₁ ++ l₂)) : s.val (endOf p l₁) = l₂.head? := by
  induction l₁ generalizing p with
  | nil =>
    cases l₂ with
    | nil => exact h
    | cons e l₂ => exact h.1
  | cons e l₁ ih => exact ih h.2.2

theorem prev_endOf (h : Chain s p (l₁ ++ e :: l₂)) : s.prev e = some (endOf p l₁) := by
  induction l₁ generalizing p with
  | nil => exact h.2.1
  | cons a l₁ ih => exact ih h.2.2

theorem next_eq (h : Chain s p (l₁ ++ e :: l₂)) : s.val (.next e) = l₂.head? := by
  have h' : Chain s p ((l₁ ++ [e]) ++ l₂) := by rwa [List.append_assoc]
  have hval := h'.val_endOf
  rwa [endOf_append] at hval

/-- A chain depends on the fields it runs through only. -/
theorem congr (h : Chain s p l) (hp : s'.val p = s.val p)
    (hl : ∀ x ∈ l, s'.val (.next x) = s.val (.next x) ∧ s'.prev x = s.prev x) : Chain s' p l := by
  induction l generalizing p with
  | nil => exact hp.trans h
  | cons e l ih =>
    obtain ⟨hval, hprev, hrest⟩ := h
    obtain ⟨hnext, hprev'⟩ := hl e List.mem_cons_self
    exact ⟨hp.trans hval, hprev'.trans hprev,
      ih hrest hnext fun x hx => hl x (List.mem_cons_of_mem e hx)⟩

theorem unique (h₁ : Chain s p l₁) (h₂ : Chain s p l₂) : l₁ = l₂ := by
  induction l₁ generalizing p l₂ with
  | nil =>
    cases l₂ with
    | nil => rfl
    | cons e l₂ => exact absurd (h₂.1.symm.trans h₁) (Option.some_ne_none e)
  | cons e l₁ ih =>
    cases l₂ with
    | nil => exact absurd (h₁.1.symm.trans h₂) (Option.some_ne_none e)
    | cons a l₂ =>
      obtain rfl : e = a := Option.some.inj (h₁.1.symm.trans h₂.1)
      rw [ih h₁.2.2 h₂.2.2]

/-- The field that points to an element starts the chain or is a next field of it. -/
theorem prev_mem (h : Chain s p l) (he : e ∈ l) :
    ∃ q, s.prev e = some q ∧ (q = p ∨ ∃ x ∈ l, q = .next x) := by
  obtain ⟨l₁, l₂, rfl⟩ := List.append_of_mem he
  refine ⟨_, h.prev_endOf, ?_⟩
  rcases endOf_cases p l₁ with hq | ⟨x, hx, hq⟩
  · exact Or.inl hq
  · exact Or.inr ⟨x, List.mem_append_left _ hx, hq⟩

/-- Chains that start apart stay apart. -/
theorem disjoint {q : Field ι α} (h₁ : Chain s p l₁) (h₂ : Chain s q l₂) (hp : Outside p l₂)
    (hpq : p ≠ q) (hq : Outside q l₁) : ∀ x ∈ l₁, x ∉ l₂ := by
  induction l₁ generalizing p with
  | nil => exact fun x hx => absurd hx List.not_mem_nil
  | cons e l₁ ih =>
    have he : e ∉ l₂ := by
      intro hc
      obtain ⟨r, hr, hcases⟩ := h₂.prev_mem hc
      obtain rfl : p = r := Option.some.inj (h₁.2.1.symm.trans hr)
      rcases hcases with rfl | ⟨x, hx, rfl⟩
      · exact hpq rfl
      · exact hp x hx rfl
    intro x hx
    rcases List.mem_cons.mp hx with rfl | hx
    · exact he
    · exact ih h₁.2.2 (outside_next he) (hq e List.mem_cons_self).symm
        (fun y hy => hq y (List.mem_cons_of_mem e hy)) x hx

end Chain

-- ---------------------------------------------------------------------------
-- One element in or out
-- ---------------------------------------------------------------------------

variable [DecidableEq ι] [DecidableEq α]

/-- Element `e` goes in where field `p` points to. -/
def link (s : Links ι α) (p : Field ι α) (e : α) : Links ι α where
  val := Function.update (Function.update s.val (.next e) (s.val p)) p (some e)
  prev := Function.update
    ((s.val p).elim s.prev fun n => Function.update s.prev n (some (.next e))) e (some p)
  last := s.last

/-- Element `e`, to which field `p` points, goes out. -/
def unlink (s : Links ι α) (p : Field ι α) (e : α) : Links ι α where
  val := Function.update s.val p (s.val (.next e))
  prev := (s.val (.next e)).elim s.prev fun n => Function.update s.prev n (some p)
  last := s.last

section Fields

variable {s : Links ι α} {p q : Field ι α} {e x : α}

theorem link_val_self (s : Links ι α) (p : Field ι α) (e : α) : (s.link p e).val p = some e :=
  Function.update_self ..

theorem link_val_next (hp : p ≠ .next e) : (s.link p e).val (.next e) = s.val p :=
  (Function.update_of_ne hp.symm ..).trans (Function.update_self ..)

theorem link_val_of_ne (hp : q ≠ p) (he : q ≠ .next e) : (s.link p e).val q = s.val q :=
  (Function.update_of_ne hp ..).trans (Function.update_of_ne he ..)

theorem link_prev_self (s : Links ι α) (p : Field ι α) (e : α) : (s.link p e).prev e = some p :=
  Function.update_self ..

theorem link_prev_next (hx : s.val p = some x) (hne : x ≠ e) : (s.link p e).prev x = some (.next e) := by
  refine (Function.update_of_ne hne ..).trans ?_
  rw [hx]
  exact Function.update_self ..

theorem link_prev_of_ne (hx : s.val p ≠ some x) (hne : x ≠ e) : (s.link p e).prev x = s.prev x := by
  refine (Function.update_of_ne hne ..).trans ?_
  cases hval : s.val p with
  | none => rfl
  | some n =>
    have hxn : x ≠ n := fun hc => hx (by rw [hval, hc])
    exact Function.update_of_ne hxn ..

theorem unlink_val_self (s : Links ι α) (p : Field ι α) (e : α) :
    (s.unlink p e).val p = s.val (.next e) := Function.update_self ..

theorem unlink_val_of_ne (hq : q ≠ p) : (s.unlink p e).val q = s.val q := Function.update_of_ne hq ..

theorem unlink_prev_next (hx : s.val (.next e) = some x) : (s.unlink p e).prev x = some p := by
  unfold unlink
  rw [hx]
  exact Function.update_self ..

theorem unlink_prev_of_ne (hx : s.val (.next e) ≠ some x) : (s.unlink p e).prev x = s.prev x := by
  unfold unlink
  cases hval : s.val (.next e) with
  | none => rfl
  | some n =>
    have hxn : x ≠ n := fun hc => hx (by rw [hval, hc])
    exact Function.update_of_ne hxn ..

end Fields

namespace Chain

variable {s : Links ι α} {p : Field ι α} {e : α} {l₁ l₂ : List α}

/-- What follows the place of the change is linked as before. -/
theorem after_link {n : α} (h : Chain s (.next n) l₂) (hn : s.val p = some n) (he : e ∉ n :: l₂)
    (hnl : n ∉ l₂) (hp : Outside p (n :: l₂)) : Chain (s.link p e) (.next n) l₂ := by
  have hne : ∀ x ∈ n :: l₂, x ≠ e := fun x hx hc => he (hc ▸ hx)
  have hval : ∀ x ∈ n :: l₂, (s.link p e).val (.next x) = s.val (.next x) := fun x hx =>
    link_val_of_ne (hp x hx).symm fun hc => hne x hx (Field.next.inj hc)
  refine h.congr (hval n List.mem_cons_self) fun x hx => ?_
  have hx' := List.mem_cons_of_mem n hx
  refine ⟨hval x hx', link_prev_of_ne ?_ (hne x hx')⟩
  rw [hn]
  exact fun hc => hnl (Option.some.inj hc ▸ hx)

/-- An element that is not in the chain goes in at any place of it. -/
theorem link (h : Chain s p (l₁ ++ l₂)) (hn : (l₁ ++ l₂).Nodup) (he : e ∉ l₁ ++ l₂)
    (hp : Outside p (e :: (l₁ ++ l₂))) : Chain (s.link (endOf p l₁) e) p (l₁ ++ e :: l₂) := by
  induction l₁ generalizing p with
  | nil =>
    refine ⟨link_val_self .., link_prev_self .., ?_⟩
    have hnext := link_val_next (s := s) (hp e List.mem_cons_self)
    cases l₂ with
    | nil => exact hnext.trans h
    | cons n l₂ =>
      obtain ⟨hval, -, hrest⟩ := h
      have hne : n ≠ e := fun hc => he (hc ▸ List.mem_cons_self)
      exact ⟨hnext.trans hval, link_prev_next hval hne, hrest.after_link hval he
        (List.nodup_cons.mp hn).1 fun x hx => hp x (List.mem_cons_of_mem e hx)⟩
  | cons a l₁ ih =>
    obtain ⟨hval, hprev, hrest⟩ := h
    obtain ⟨ha, hn'⟩ := List.nodup_cons.mp hn
    have hae : a ≠ e := fun hc => he (hc ▸ List.mem_cons_self)
    have hend : p ≠ endOf (.next a) l₁ :=
      Outside.ne_endOf_next fun x hx => hp x (List.mem_cons_of_mem e (List.mem_append_left l₂ hx))
    have hnot : s.val (endOf (.next a) l₁) ≠ some a := by
      rw [hrest.val_endOf]
      exact fun hc => ha (List.mem_append_right l₁ (List.mem_of_mem_head? hc))
    refine ⟨(link_val_of_ne hend (hp e List.mem_cons_self)).trans hval,
      (link_prev_of_ne hnot hae).trans hprev,
      ih hrest hn' (fun hc => he (List.mem_cons_of_mem a hc)) (outside_next ?_)⟩
    rw [List.mem_cons, not_or]
    exact ⟨hae, ha⟩

/-- An element of the chain goes out. -/
theorem unlink (h : Chain s p (l₁ ++ e :: l₂)) (hn : (l₁ ++ e :: l₂).Nodup)
    (hp : Outside p (l₁ ++ e :: l₂)) : Chain (s.unlink (endOf p l₁) e) p (l₁ ++ l₂) := by
  induction l₁ generalizing p with
  | nil =>
    obtain ⟨-, -, hrest⟩ := h
    have hself := unlink_val_self s p e
    cases l₂ with
    | nil => exact hself.trans hrest
    | cons n l₂ =>
      obtain ⟨hval, -, hrest⟩ := hrest
      have hp' : ∀ x ∈ n :: l₂, Field.next x ≠ p := fun x hx =>
        (hp x (List.mem_cons_of_mem e hx)).symm
      refine ⟨hself.trans hval, unlink_prev_next hval, ?_⟩
      refine hrest.congr (unlink_val_of_ne (hp' n List.mem_cons_self)) fun x hx => ?_
      refine ⟨unlink_val_of_ne (hp' x (List.mem_cons_of_mem n hx)), unlink_prev_of_ne ?_⟩
      rw [hval]
      exact fun hc => (List.nodup_cons.mp (List.nodup_cons.mp hn).2).1 (Option.some.inj hc ▸ hx)
  | cons a l₁ ih =>
    have hnext := h.next_eq
    obtain ⟨hval, hprev, hrest⟩ := h
    obtain ⟨ha, hn'⟩ := List.nodup_cons.mp hn
    have hend : p ≠ endOf (.next a) l₁ :=
      Outside.ne_endOf_next fun x hx => hp x (List.mem_append_left (e :: l₂) hx)
    have hnot : s.val (.next e) ≠ some a := by
      rw [hnext]
      exact fun hc => ha (List.mem_append_right l₁
        (List.mem_cons_of_mem e (List.mem_of_mem_head? hc)))
    exact ⟨(unlink_val_of_ne hend).trans hval, (unlink_prev_of_ne hnot).trans hprev,
      ih hrest hn' (outside_next ha)⟩

end Chain

end Links

end Mos.Lib
