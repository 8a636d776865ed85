import Mathlib.Data.Set.Basic

/-!
# Caches over changing memory

Hardware keeps a set of entries it has read off memory and does not tell anyone when it reads or
forgets one. Memory changes by events, some of which make it drop entries. `CacheRun` are its runs;
`Settles` is what software has to do: an entry that was right at some time is right in the end, or
an event has dropped it since. Then the cache is right in the end (`CacheRun.all_right`).
-/

namespace Mos.Lib

section

variable {M E X : Type} (after : M → E → M) (drops : E → X → Prop)

/-- The memory after the events. -/
def memAfter (m : M) (evs : List E) : M := evs.foldl after m

/-- Over the events the hardware may read entries of `fills` off the memory of the moment, and forget
any; it forgets those that an event drops. -/
inductive CacheRun (fills : M → Set X) : M → List E → Set X → Set X → Prop where
  | done {m : M} {T T' : Set X} : T' ⊆ T ∪ fills m → CacheRun fills m [] T T'
  | step {m : M} {T T₁ T' : Set X} {ev : E} {evs : List E} : T₁ ⊆ T ∪ fills m →
      CacheRun fills (after m ev) evs {x | x ∈ T₁ ∧ ¬ drops ev x} T' →
      CacheRun fills m (ev :: evs) T T'

/-- Whenever `right` was true, it is true in the end or an event has dropped the entry since. -/
def Settles (right : M → Prop) (drop : E → Prop) (m : M) (evs : List E) : Prop :=
  ∀ pre post, evs = pre ++ post → right (memAfter after m pre) →
    right (memAfter after m evs) ∨ ∃ ev ∈ post, drop ev

end

variable {M E X : Type} {after : M → E → M} {drops : E → X → Prop}

@[simp] theorem memAfter_nil (m : M) : memAfter after m [] = m := rfl
@[simp] theorem memAfter_cons (m : M) (ev : E) (evs : List E) :
    memAfter after m (ev :: evs) = memAfter after (after m ev) evs := rfl
theorem memAfter_append (m : M) (evs evs' : List E) :
    memAfter after m (evs ++ evs') = memAfter after (memAfter after m evs) evs' :=
  List.foldl_append

section Settles

variable {right : M → Prop} {drop : E → Prop} {m : M} {ev : E} {evs evs' : List E}

/-- At the start. -/
theorem Settles.start (h : Settles after right drop m evs) (hm : right m) :
    right (memAfter after m evs) ∨ ∃ ev ∈ evs, drop ev :=
  h [] evs rfl hm

theorem Settles.tail (h : Settles after right drop m (ev :: evs)) :
    Settles after right drop (after m ev) evs := by
  intro pre post he hpre
  exact h (ev :: pre) post (by rw [he, List.cons_append]) hpre

theorem Settles.nil : Settles after right drop m [] := by
  intro pre post he hpre
  obtain ⟨rfl, rfl⟩ := List.append_eq_nil_iff.mp he.symm
  exact Or.inl hpre

theorem Settles.append (h : Settles after right drop m evs)
    (h' : Settles after right drop (memAfter after m evs) evs') :
    Settles after right drop m (evs ++ evs') := by
  intro pre post he hpre
  rw [memAfter_append]
  rcases List.append_eq_append_iff.mp he with ⟨mid, rfl, rfl⟩ | ⟨mid, rfl, rfl⟩
  · -- the second part is split
    rw [memAfter_append] at hpre
    exact h' mid post rfl hpre
  · -- the first part is split
    rcases h pre mid rfl hpre with hend | ⟨ev, hev, hdrop⟩
    · rcases h'.start hend with hend' | ⟨ev, hev, hdrop⟩
      · exact Or.inl hend'
      · exact Or.inr ⟨ev, List.mem_append_right mid hev, hdrop⟩
    · exact Or.inr ⟨ev, List.mem_append_left evs' hev, hdrop⟩

/-- Nothing happens to `right`. -/
theorem Settles.of_iff (h : ∀ pre post, evs = pre ++ post → (right (memAfter after m pre) ↔ right m)) :
    Settles after right drop m evs := by
  intro pre post he hpre
  refine Or.inl ?_
  rw [h evs [] (by rw [List.append_nil])]
  exact (h pre post he).mp hpre

/-- What was right before the last event is dropped by it. -/
theorem Settles.of_last {last : E}
    (h : ∀ pre post, evs = pre ++ post → right (memAfter after m pre) →
      right (memAfter after m (evs ++ [last])) ∨ drop last) :
    Settles after right drop m (evs ++ [last]) := by
  intro pre post he hpre
  rcases List.append_eq_append_iff.mp he with ⟨mid, rfl, hmid⟩ | ⟨mid, rfl, hmid⟩
  · cases mid with
    | nil =>
      rw [List.nil_append] at hmid
      subst hmid
      rw [List.append_nil] at hpre
      rcases h evs [] (by rw [List.append_nil]) hpre with hend | hdrop
      · exact Or.inl hend
      · exact Or.inr ⟨last, List.mem_singleton_self last, hdrop⟩
    | cons x mid =>
      obtain ⟨rfl, hnil⟩ := List.cons_eq_cons.mp hmid
      obtain ⟨rfl, rfl⟩ := List.append_eq_nil_iff.mp hnil.symm
      exact Or.inl hpre
  · subst hmid
    rcases h pre mid rfl hpre with hend | hdrop
    · exact Or.inl hend
    · exact Or.inr ⟨last, List.mem_append_right mid (List.mem_singleton_self last), hdrop⟩

end Settles

section

variable {fills right : M → Set X} {m : M} {evs : List E} {T T₁ T' : Set X}

/-- What the cache holds after a while without events is right in the end, or dropped by then. -/
theorem Settles.cached (hsub : T₁ ⊆ T ∪ fills m) (hfills : ∀ m, fills m ⊆ right m)
    (hsettles : ∀ x, Settles after (x ∈ right ·) (drops · x) m evs)
    (hT : ∀ x ∈ T, x ∈ right (memAfter after m evs) ∨ ∃ ev ∈ evs, drops ev x) :
    ∀ x ∈ T₁, x ∈ right (memAfter after m evs) ∨ ∃ ev ∈ evs, drops ev x := by
  intro x hx
  rcases hsub hx with hx | hx
  · exact hT x hx
  · exact (hsettles x).start (hfills m hx)

/-- The hardware need not read anything. -/
theorem CacheRun.cold (fills : M → Set X) (m : M) (evs : List E) : CacheRun after drops fills m evs ∅ ∅ := by
  induction evs generalizing m with
  | nil => exact .done (Set.empty_subset _)
  | cons ev evs ih =>
    refine .step (Set.empty_subset _) ?_
    have hnone : {x | x ∈ (∅ : Set X) ∧ ¬ drops ev x} = ∅ := Set.eq_empty_of_forall_notMem fun x hx => hx.1
    rw [hnone]
    exact ih _

/-- **The cache is right.** -/
theorem CacheRun.all_right (h : CacheRun after drops fills m evs T T') (hfills : ∀ m, fills m ⊆ right m)
    (hsettles : ∀ x, Settles after (x ∈ right ·) (drops · x) m evs)
    (hT : ∀ x ∈ T, x ∈ right (memAfter after m evs) ∨ ∃ ev ∈ evs, drops ev x) :
    ∀ x ∈ T', x ∈ right (memAfter after m evs) := by
  induction h with
  | done hsub =>
    intro x hx
    rcases Settles.cached hsub hfills hsettles hT x hx with hend | ⟨ev, hev, -⟩
    · exact hend
    · cases hev
  | step hsub _ ih =>
    refine ih (fun x => (hsettles x).tail) ?_
    rintro x ⟨hx, hnot⟩
    rcases Settles.cached hsub hfills hsettles hT x hx with hend | ⟨ev', hev, hdrop⟩
    · exact Or.inl hend
    · rcases List.mem_cons.mp hev with rfl | hev
      · exact absurd hdrop hnot
      · exact Or.inr ⟨ev', hev, hdrop⟩

end

end Mos.Lib
