import Mathlib.Data.List.Basic
import Mathlib.Data.List.Nodup
import Mathlib.Logic.Function.Basic

/-!
# Intrusive tail queues

The `TAILQ` macros of a BSD `queue.h` on explicit pointers. An element carries
`tqe_next` and `tqe_prev`, the address of the field that points to it; the head
carries `tqh_first` and `tqh_last`, the address of the last next field. The
macros do what the pointers say, whether or not the element is linked: a store
through a null `tqe_prev` or `tqh_last` gives `none`.

`Rep q l` says that the pointers of `q` form the list `l`; `Rep.insertHead`,
`Rep.insertTail` and `Rep.remove` are the macros on lists.
-/

namespace Mos.Lib

/-- The address of a field that points to an element. -/
inductive LinkAddr (α : Type) where
  | null
  | head              -- &head->tqh_first
  | next (e : α)      -- &e->field.tqe_next
  deriving DecidableEq, Repr

structure TailQueue (α : Type) where
  first : Option α
  last : LinkAddr α
  next : α → Option α
  prev : α → LinkAddr α

namespace TailQueue

variable {α : Type} [DecidableEq α]

/-- `*p`. -/
def get (q : TailQueue α) : LinkAddr α → Option α
  | .null => none
  | .head => q.first
  | .next e => q.next e

/-- `*p = v`. -/
def put (q : TailQueue α) (p : LinkAddr α) (v : Option α) : Option (TailQueue α) :=
  match p with
  | .null => none
  | .head => some { q with first := v }
  | .next e => some { q with next := Function.update q.next e v }

/-- `TAILQ_INIT`. -/
def init (q : TailQueue α) : TailQueue α := { q with first := none, last := .head }

/-- `TAILQ_INSERT_HEAD`. -/
def insertHead (q : TailQueue α) (e : α) : TailQueue α :=
  let q := { q with next := Function.update q.next e q.first }
  let q := match q.first with
    | some f => { q with prev := Function.update q.prev f (.next e) }
    | none => { q with last := .next e }
  { q with first := some e, prev := Function.update q.prev e .head }

/-- `TAILQ_INSERT_TAIL`. -/
def insertTail (q : TailQueue α) (e : α) : Option (TailQueue α) := do
  let q := { q with
    next := Function.update q.next e none
    prev := Function.update q.prev e q.last }
  let q ← q.put q.last (some e)
  return { q with last := .next e }

/-- `TAILQ_REMOVE`. -/
def remove (q : TailQueue α) (e : α) : Option (TailQueue α) :=
  let q := match q.next e with
    | some n => { q with prev := Function.update q.prev n (q.prev e) }
    | none => { q with last := q.prev e }
  q.put (q.prev e) (q.next e)

/-- The field that ends the chain of `l` started at `p`. -/
def endOf : LinkAddr α → List α → LinkAddr α
  | p, [] => p
  | _, e :: l => endOf (.next e) l

/-- From the field at `p` on, the pointers follow `l`. -/
def Seg (q : TailQueue α) : LinkAddr α → List α → Prop
  | _, [] => True
  | p, e :: l => q.get p = some e ∧ q.prev e = p ∧ Seg q (.next e) l

/-- The queue holds the elements of `l`, each once, in this order. -/
structure Rep (q : TailQueue α) (l : List α) : Prop where
  nodup : l.Nodup
  seg : Seg q .head l
  last : q.last = endOf .head l
  stop : q.get q.last = none

omit [DecidableEq α] in
theorem endOf_append (p : LinkAddr α) (l₁ l₂ : List α) :
    endOf p (l₁ ++ l₂) = endOf (endOf p l₁) l₂ := by
  induction l₁ generalizing p with
  | nil => rfl
  | cons e l₁ ih => exact ih (.next e)

omit [DecidableEq α] in
theorem endOf_cases (p : LinkAddr α) (l : List α) :
    (l = [] ∧ endOf p l = p) ∨ ∃ x ∈ l, endOf p l = .next x := by
  induction l generalizing p with
  | nil => exact Or.inl ⟨rfl, rfl⟩
  | cons e l ih =>
    refine Or.inr ?_
    rcases ih (.next e) with ⟨-, h⟩ | ⟨x, hx, h⟩
    · exact ⟨e, List.mem_cons_self, h⟩
    · exact ⟨x, List.mem_cons_of_mem e hx, h⟩

omit [DecidableEq α] in
theorem seg_append (q : TailQueue α) (p : LinkAddr α) (l₁ l₂ : List α) :
    Seg q p (l₁ ++ l₂) ↔ Seg q p l₁ ∧ Seg q (endOf p l₁) l₂ := by
  induction l₁ generalizing p with
  | nil => exact ⟨fun h => ⟨trivial, h⟩, fun h => h.2⟩
  | cons e l₁ ih =>
    simp only [List.cons_append, Seg, endOf, ih, and_assoc]

omit [DecidableEq α] in
/-- A chain does not depend on the field that ends it, nor on fields outside. -/
theorem seg_congr {q q' : TailQueue α} {p : LinkAddr α} {l : List α} (hn : l.Nodup)
    (hp : ∀ x ∈ l, p ≠ .next x) (hprev : ∀ x ∈ l, q'.prev x = q.prev x)
    (hget : ∀ s, s = p ∨ (∃ x ∈ l, s = .next x) → s ≠ endOf p l → q'.get s = q.get s)
    (h : Seg q p l) : Seg q' p l := by
  induction l generalizing p with
  | nil => trivial
  | cons e l ih =>
    obtain ⟨hg, hpe, hl⟩ := h
    rw [List.nodup_cons] at hn
    have hend : p ≠ endOf p (e :: l) := by
      intro he
      rcases endOf_cases p (e :: l) with ⟨hnil, -⟩ | ⟨x, hx, hxe⟩
      · cases hnil
      · exact hp x hx (he.trans hxe)
    refine ⟨(hget p (Or.inl rfl) hend).trans hg, (hprev e List.mem_cons_self).trans hpe, ?_⟩
    refine ih hn.2 ?_ (fun x hx => hprev x (List.mem_cons_of_mem e hx)) ?_ hl
    · rintro x hx he
      obtain rfl := LinkAddr.next.inj he
      exact hn.1 hx
    · intro s hs hse
      refine hget s (Or.inr ?_) hse
      rcases hs with rfl | ⟨x, hx, rfl⟩
      · exact ⟨e, List.mem_cons_self, rfl⟩
      · exact ⟨x, List.mem_cons_of_mem e hx, rfl⟩

omit [DecidableEq α] in
theorem get_endOf_eq_head? {q : TailQueue α} {p : LinkAddr α} {l : List α} (h : Seg q p l)
    (hend : l = [] → q.get p = none) : q.get p = l.head? := by
  cases l with
  | nil => exact hend rfl
  | cons e l => exact h.1

omit [DecidableEq α] in
theorem rep_init (q : TailQueue α) : Rep q.init [] :=
  ⟨List.nodup_nil, trivial, rfl, rfl⟩

omit [DecidableEq α] in
/-- The pointers of a chain that ends determine its elements. -/
theorem seg_unique {q : TailQueue α} {p : LinkAddr α} {l₁ l₂ : List α} (h₁ : Seg q p l₁)
    (h₂ : Seg q p l₂) (hend₁ : q.get (endOf p l₁) = none) (hend₂ : q.get (endOf p l₂) = none) :
    l₁ = l₂ := by
  induction l₁ generalizing p l₂ with
  | nil =>
    cases l₂ with
    | nil => rfl
    | cons e l₂ => exact absurd (h₂.1.symm.trans hend₁) (Option.some_ne_none e)
  | cons e l₁ ih =>
    cases l₂ with
    | nil => exact absurd (h₁.1.symm.trans hend₂) (Option.some_ne_none e)
    | cons e' l₂ =>
      obtain rfl : e = e' := Option.some.inj (h₁.1.symm.trans h₂.1)
      rw [ih h₁.2.2 h₂.2.2 hend₁ hend₂]

namespace Rep

variable {q : TailQueue α} {l : List α} {e : α}

omit [DecidableEq α] in
theorem unique {l₁ l₂ : List α} (h₁ : Rep q l₁) (h₂ : Rep q l₂) : l₁ = l₂ :=
  seg_unique h₁.seg h₂.seg (h₁.last ▸ h₁.stop) (h₂.last ▸ h₂.stop)

omit [DecidableEq α] in
/-- `TAILQ_FIRST`. -/
theorem first_eq (h : Rep q l) : q.first = l.head? := by
  refine get_endOf_eq_head? (p := .head) h.seg ?_
  intro hl
  have hs := h.stop
  rw [h.last, hl] at hs
  exact hs

theorem insertHead (h : Rep q l) (he : e ∉ l) : Rep (q.insertHead e) (e :: l) := by
  have hfirst := h.first_eq
  have hnodup : (e :: l).Nodup := List.nodup_cons.mpr ⟨he, h.nodup⟩
  cases l with
  | nil =>
    simp only [List.head?_nil] at hfirst
    have hq : q.insertHead e =
        { first := some e, last := .next e, next := Function.update q.next e none,
          prev := Function.update q.prev e .head } := by
      simp [TailQueue.insertHead, hfirst]
    rw [hq]
    exact ⟨hnodup, ⟨rfl, Function.update_self .., trivial⟩, rfl, Function.update_self ..⟩
  | cons f l =>
    simp only [List.head?_cons] at hfirst
    have hfe : f ≠ e := fun heq => he (heq ▸ List.mem_cons_self)
    have hnf : f ∉ l := (List.nodup_cons.mp h.nodup).1
    have hlast : q.last = endOf (.next f) l := h.last
    have hq : q.insertHead e =
        { first := some e, last := q.last, next := Function.update q.next e (some f),
          prev := Function.update (Function.update q.prev f (.next e)) e .head } := by
      simp [TailQueue.insertHead, hfirst]
    rw [hq]
    refine ⟨hnodup, ⟨rfl, Function.update_self .., ?_, ?_, ?_⟩, hlast, ?_⟩
    · exact Function.update_self ..
    · simp [hfe]
    · refine seg_congr (List.nodup_cons.mp h.nodup).2 ?_ ?_ ?_ h.seg.2.2
      · intro x hx heq
        obtain rfl := LinkAddr.next.inj heq
        exact hnf hx
      · intro x hx
        have hxe : x ≠ e := fun heq => he (heq ▸ List.mem_cons_of_mem f hx)
        have hxf : x ≠ f := fun heq => hnf (heq ▸ hx)
        simp [hxe, hxf]
      · intro s hs _
        rcases hs with rfl | ⟨x, hx, rfl⟩
        · simp [get, hfe]
        · have hxe : x ≠ e := fun heq => he (heq ▸ List.mem_cons_of_mem f hx)
          simp [get, hxe]
    · have hs := h.stop
      rw [hlast] at hs ⊢
      rcases endOf_cases (.next f) l with ⟨-, hend⟩ | ⟨x, hx, hend⟩
      · rw [hend] at hs ⊢
        simpa [get, hfe] using hs
      · have hxe : x ≠ e := fun heq => he (heq ▸ List.mem_cons_of_mem f hx)
        rw [hend] at hs ⊢
        simpa [get, hxe] using hs

/-- Writing the field `p` of a queue whose fields are not null. -/
theorem put_get {q q' : TailQueue α} {p : LinkAddr α} {v : Option α} (h : q.put p v = some q') :
    q'.get p = v ∧ q'.prev = q.prev ∧ q'.last = q.last ∧ ∀ s, s ≠ p → q'.get s = q.get s := by
  cases p with
  | null => cases h
  | head =>
    obtain rfl := Option.some.inj h
    refine ⟨rfl, rfl, rfl, ?_⟩
    intro s hs
    cases s with
    | head => exact absurd rfl hs
    | null => rfl
    | next x => rfl
  | next y =>
    obtain rfl := Option.some.inj h
    refine ⟨Function.update_self .., rfl, rfl, ?_⟩
    intro s hs
    cases s with
    | head => rfl
    | null => rfl
    | next x =>
      have hxy : x ≠ y := fun heq => hs (by rw [heq])
      simp [get, hxy]

omit [DecidableEq α] in
/-- The end of a queue is a field. -/
theorem endOf_ne_null (l : List α) : endOf .head l ≠ .null := by
  rcases endOf_cases .head l with ⟨-, h⟩ | ⟨x, -, h⟩
  · rw [h]
    simp
  · rw [h]
    simp

theorem put_ok (q : TailQueue α) {p : LinkAddr α} (hp : p ≠ .null) (v : Option α) :
    ∃ q', q.put p v = some q' := by
  cases p with
  | null => exact absurd rfl hp
  | head => exact ⟨_, rfl⟩
  | next x => exact ⟨_, rfl⟩

theorem insertTail (h : Rep q l) (he : e ∉ l) :
    ∃ q', q.insertTail e = some q' ∧ Rep q' (l ++ [e]) := by
  obtain ⟨q₀, hq₀⟩ : ∃ q₀ : TailQueue α, q₀ = { q with
    next := Function.update q.next e none
    prev := Function.update q.prev e q.last } := ⟨_, rfl⟩
  have hlast : q₀.last = endOf .head l := by rw [hq₀]; exact h.last
  obtain ⟨q₁, hput⟩ := put_ok q₀ (p := q₀.last) (by rw [hlast]; exact endOf_ne_null l) (some e)
  obtain ⟨hself, hprev, -, hother⟩ := put_get hput
  have hende : endOf .head l ≠ .next e := by
    intro heq
    rcases endOf_cases .head l with ⟨-, hend⟩ | ⟨x, hx, hend⟩
    · rw [hend] at heq
      simp at heq
    · rw [hend] at heq
      exact he (LinkAddr.next.inj heq ▸ hx)
  have hget₀ : ∀ s, s ≠ .next e → q₀.get s = q.get s := by
    intro s hs
    rw [hq₀]
    cases s with
    | head => rfl
    | null => rfl
    | next x =>
      have hxe : x ≠ e := fun heq => hs (by rw [heq])
      simp [get, hxe]
  refine ⟨{ q₁ with last := .next e }, ?_, ?_, ?_, ?_, ?_⟩
  · unfold TailQueue.insertTail
    rw [← hq₀]
    simp [hput]
  · exact List.nodup_append_comm.mp (List.nodup_cons.mpr ⟨he, h.nodup⟩)
  · rw [seg_append]
    refine ⟨?_, ?_, ?_, trivial⟩
    · refine seg_congr h.nodup (fun x _ => by simp) ?_ ?_ h.seg
      · intro x hx
        have hxe : x ≠ e := fun heq => he (heq ▸ hx)
        show q₁.prev x = q.prev x
        rw [hprev, hq₀]
        simp [hxe]
      · intro s hs hse
        show q₁.get s = q.get s
        rw [hother s (by rw [hlast]; exact hse), hget₀]
        rcases hs with rfl | ⟨x, hx, rfl⟩
        · simp
        · intro heq
          exact he (LinkAddr.next.inj heq ▸ hx)
    · show q₁.get (endOf .head l) = some e
      rw [← hlast]
      exact hself
    · show q₁.prev e = endOf .head l
      rw [hprev, ← h.last, hq₀]
      simp
  · rw [endOf_append]
    rfl
  · show q₁.get (.next e) = none
    rw [hother (.next e) (by rw [hlast]; exact hende.symm), hq₀]
    simp [get]

theorem remove (h : Rep q l) (he : e ∈ l) :
    ∃ q', q.remove e = some q' ∧ Rep q' (l.erase e) := by
  obtain ⟨l₁, l₂, rfl, hl₁⟩ : ∃ l₁ l₂, l = l₁ ++ e :: l₂ ∧ e ∉ l₁ := by
    obtain ⟨l₁, l₂, h₁, h₂⟩ := List.eq_append_cons_of_mem he
    exact ⟨l₁, l₂, h₁, h₂⟩
  have hnodup := h.nodup
  rw [List.nodup_append, List.nodup_cons] at hnodup
  obtain ⟨hn₁, ⟨he₂, hn₂⟩, hdisj⟩ := hnodup
  have herase : (l₁ ++ e :: l₂).erase e = l₁ ++ l₂ := by
    rw [List.erase_append_right _ hl₁, List.erase_cons_head]
  rw [herase]
  obtain ⟨hs₁, hgp, hpe, hs₂⟩ := (seg_append q .head l₁ (e :: l₂)).mp h.seg
  obtain ⟨p, hp⟩ : ∃ p, p = endOf .head l₁ := ⟨_, rfl⟩
  rw [← hp] at hgp hpe
  have hpnull : p ≠ .null := by rw [hp]; exact endOf_ne_null l₁
  -- the field that points to `e` is not a field of `e` or of an element behind it
  have hpout : ∀ x, x = e ∨ x ∈ l₂ → p ≠ .next x := by
    intro x hx heq
    rw [hp] at heq
    rcases endOf_cases .head l₁ with ⟨-, hend⟩ | ⟨y, hy, hend⟩
    · rw [hend] at heq
      simp at heq
    · rw [hend] at heq
      obtain rfl := LinkAddr.next.inj heq
      rcases hx with rfl | hx
      · exact hl₁ hy
      · exact hdisj y hy y (List.mem_cons_of_mem e hx) rfl
  have hnodup' : (l₁ ++ l₂).Nodup := by
    rw [← herase]
    exact h.nodup.erase e
  have hseg₁ : ∀ q' : TailQueue α, (∀ x ∈ l₁, q'.prev x = q.prev x) →
      (∀ s, s ≠ p → q'.get s = q.get s) → Seg q' .head l₁ := by
    intro q' h1 h2
    refine seg_congr hn₁ (fun x _ => by simp) h1 ?_ hs₁
    intro s _ hse
    exact h2 s (by rw [hp]; exact hse)
  cases l₂ with
  | nil =>
    -- the last element: the queue now ends where it started
    have hlast : q.last = .next e := by
      rw [h.last, endOf_append]
      rfl
    have hnext : q.next e = none := by
      have hs := h.stop
      rw [hlast] at hs
      exact hs
    obtain ⟨q₁, hput⟩ := put_ok { q with last := p } hpnull none
    obtain ⟨hself, hprev, hlast₁, hother⟩ := put_get hput
    refine ⟨q₁, ?_, hnodup', ?_, ?_, ?_⟩
    · unfold TailQueue.remove
      simp only [hnext, hpe]
      exact hput
    · rw [List.append_nil]
      refine hseg₁ q₁ (fun x _ => by rw [hprev]) ?_
      intro s hs
      exact (hother s hs).trans (by cases s <;> rfl)
    · rw [hlast₁, List.append_nil]
      exact hp
    · rw [hlast₁]
      exact hself
  | cons n l₂ =>
    obtain ⟨hgn, hpn, hs₃⟩ := hs₂
    have hnext : q.next e = some n := hgn
    have hne : n ≠ e := fun heq => he₂ (heq ▸ List.mem_cons_self)
    have hnl₂ : n ∉ l₂ := (List.nodup_cons.mp hn₂).1
    obtain ⟨q₁, hput⟩ := put_ok { q with prev := Function.update q.prev n p } hpnull (some n)
    obtain ⟨hself, hprev, hlast₁, hother⟩ := put_get hput
    have hget : ∀ s, s ≠ p → q₁.get s = q.get s :=
      fun s hs => (hother s hs).trans (by cases s <;> rfl)
    refine ⟨q₁, ?_, hnodup', ?_, ?_, ?_⟩
    · unfold TailQueue.remove
      simp only [hnext, hpe, Function.update_of_ne hne.symm]
      exact hput
    · rw [seg_append, ← hp]
      refine ⟨hseg₁ q₁ ?_ hget, hself, ?_, ?_⟩
      · intro x hx
        have hxn : x ≠ n := fun heq =>
          hdisj x hx n (List.mem_cons_of_mem e List.mem_cons_self) heq
        rw [hprev]
        simp [hxn]
      · rw [hprev]
        simp
      · refine seg_congr (List.nodup_cons.mp hn₂).2 ?_ ?_ ?_ hs₃
        · intro x hx heq
          obtain rfl := LinkAddr.next.inj heq
          exact hnl₂ hx
        · intro x hx
          have hxn : x ≠ n := fun heq => hnl₂ (heq ▸ hx)
          rw [hprev]
          simp [hxn]
        · intro s hs _
          refine hget s ?_
          rcases hs with rfl | ⟨x, hx, rfl⟩
          · exact (hpout n (Or.inr List.mem_cons_self)).symm
          · exact (hpout x (Or.inr (List.mem_cons_of_mem n hx))).symm
    · rw [hlast₁]
      show q.last = _
      rw [h.last, endOf_append, endOf_append]
      rfl
    · rw [hlast₁]
      show q₁.get q.last = none
      have hstop := h.stop
      have hl : q.last = endOf (.next n) l₂ := by
        rw [h.last, endOf_append]
        rfl
      rw [hget _ ?_]
      · exact hstop
      · rw [hl]
        rcases endOf_cases (.next n) l₂ with ⟨-, hend⟩ | ⟨x, hx, hend⟩
        · rw [hend]
          exact (hpout n (Or.inr List.mem_cons_self)).symm
        · rw [hend]
          exact (hpout x (Or.inr (List.mem_cons_of_mem n hx))).symm

end Rep

end TailQueue

end Mos.Lib
