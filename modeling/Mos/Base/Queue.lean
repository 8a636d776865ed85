import Mos.Lib.Links
import Mos.Lib.TailQueue

/-!
# MOS on RISC-V — the macros of queue.h

The `LIST` and `TAILQ` macros of `include/queue.h`, statement by statement, on a heap of
links that all lists of one entry field share. A store through a null `le_prev`, `tqe_prev`
or `tqh_last` gives `none`.

Main results:

* `queue_macros` — on a list that is well formed, at any place of it, a macro does to the
  pointers what its name says of the list, and to no other list anything;
* `queueLinks_insertHead`, `queueLinks_insertTail`, `queueLinks_remove`, `queueLinks_isTailq` —
  the run queue of the kernel is such a tail queue, and its operations are these macros.
-/

namespace Mos.Base

open Mos.Lib Mos.Lib.Links

variable {ι α : Type}

-- ---------------------------------------------------------------------------
-- The source
-- ---------------------------------------------------------------------------

section Stores

variable [DecidableEq ι] [DecidableEq α] (s : Links ι α)

/-- `*p = v` for the address `p` of a field. -/
def setVal (p : Field ι α) (v : Option α) : Links ι α := { s with val := Function.update s.val p v }

/-- `*p = v` for a pointer `p` that may be null. -/
def storeVal (p : Option (Field ι α)) (v : Option α) : Option (Links ι α) :=
  p.map fun p => setVal s p v

/-- `(e)->field.le_prev = p`. -/
def setPrev (e : α) (p : Option (Field ι α)) : Links ι α :=
  { s with prev := Function.update s.prev e p }

/-- `(h)->tqh_last = p`. -/
def setLast (h : ι) (p : Option (Field ι α)) : Links ι α :=
  { s with last := Function.update s.last h p }

/-- `LIST_INIT`. -/
def listInit (h : ι) : Links ι α := setVal s (.first h) none

/-- `LIST_INSERT_AFTER`. -/
def listInsertAfter (listelm elm : α) : Links ι α :=
  let s := setVal s (.next elm) (s.val (.next listelm))
  let s := match s.val (.next listelm) with
    | some n => setPrev s n (some (.next elm))
    | none => s
  let s := setVal s (.next listelm) (some elm)
  setPrev s elm (some (.next listelm))

/-- `LIST_INSERT_BEFORE`. -/
def listInsertBefore (listelm elm : α) : Option (Links ι α) := do
  let s := setPrev s elm (s.prev listelm)
  let s := setVal s (.next elm) (some listelm)
  let s ← storeVal s (s.prev listelm) (some elm)
  return setPrev s listelm (some (.next elm))

/-- `LIST_INSERT_HEAD`. -/
def listInsertHead (h : ι) (elm : α) : Links ι α :=
  let s := setVal s (.next elm) (s.val (.first h))
  let s := match s.val (.first h) with
    | some n => setPrev s n (some (.next elm))
    | none => s
  let s := setVal s (.first h) (some elm)
  setPrev s elm (some (.first h))

/-- `LIST_REMOVE`. -/
def listRemove (elm : α) : Option (Links ι α) :=
  let s := match s.val (.next elm) with
    | some n => setPrev s n (s.prev elm)
    | none => s
  storeVal s (s.prev elm) (s.val (.next elm))

/-- `TAILQ_INIT`. -/
def tailqInit (h : ι) : Links ι α := setLast (setVal s (.first h) none) h (some (.first h))

/-- `TAILQ_INSERT_HEAD`. -/
def tailqInsertHead (h : ι) (elm : α) : Links ι α :=
  let s := setVal s (.next elm) (s.val (.first h))
  let s := match s.val (.first h) with
    | some n => setPrev s n (some (.next elm))
    | none => setLast s h (some (.next elm))
  let s := setVal s (.first h) (some elm)
  setPrev s elm (some (.first h))

/-- `TAILQ_INSERT_TAIL`. -/
def tailqInsertTail (h : ι) (elm : α) : Option (Links ι α) := do
  let s := setVal s (.next elm) none
  let s := setPrev s elm (s.last h)
  let s ← storeVal s (s.last h) (some elm)
  return setLast s h (some (.next elm))

/-- `TAILQ_REMOVE`. -/
def tailqRemove (h : ι) (elm : α) : Option (Links ι α) :=
  let s := match s.val (.next elm) with
    | some n => setPrev s n (s.prev elm)
    | none => setLast s h (s.prev elm)
  storeVal s (s.prev elm) (s.val (.next elm))

end Stores

-- ---------------------------------------------------------------------------
-- What the pointers mean
-- ---------------------------------------------------------------------------

/-- The list of head `h` holds the elements of `l`, each once, in this order. -/
structure IsList (s : Links ι α) (h : ι) (l : List α) : Prop where
  nodup : l.Nodup
  chain : Chain s (.first h) l

/-- So does the tail queue of `h`, and `tqh_last` is the address of the field that ends it. -/
structure IsTailq (s : Links ι α) (h : ι) (l : List α) : Prop extends IsList s h l where
  last : s.last h = some (endOf (.first h) l)

/-- No list holds `e`. -/
def Unlinked (s : Links ι α) (e : α) : Prop := ∀ h l, IsList s h l → e ∉ l

/-- The links of the elements of neither list, and of the heads but `h`, are as they were. -/
structure Keeps (s s' : Links ι α) (h : ι) (l l' : List α) : Prop where
  next : ∀ x, x ∉ l → x ∉ l' → s'.val (.next x) = s.val (.next x)
  prev : ∀ x, x ∉ l → x ∉ l' → s'.prev x = s.prev x
  first : ∀ h', h' ≠ h → s'.val (.first h') = s.val (.first h')
  last : ∀ h', h' ≠ h → s'.last h' = s.last h'

/-- The list of `h` was `l`, and in the result it is `l'`. All other lists are as they were. -/
def Yields (Rep : Links ι α → ι → List α → Prop) (s : Links ι α) (h : ι) (l : List α)
    (r : Option (Links ι α)) (l' : List α) : Prop :=
  ∃ s', r = some s' ∧ Rep s' h l' ∧ Keeps s s' h l l' ∧ ∀ h' m, h' ≠ h → Rep s h' m → Rep s' h' m

section Frame

variable {s s' : Links ι α} {h h' : ι} {l l' m : List α} {e : α}

theorem IsList.disjoint (hl : IsList s h l) (hm : IsList s h' m) (hne : h' ≠ h) : ∀ x ∈ m, x ∉ l :=
  hm.chain.disjoint hl.chain (outside_first h' l) (fun hc => hne (Field.first.inj hc))
    (outside_first h m)

/-- A list whose elements are in neither `l` nor `l'` stays what it was. -/
theorem Keeps.isList (hk : Keeps s s' h l l') (hm : IsList s h' m) (hne : h' ≠ h)
    (hl : ∀ x ∈ m, x ∉ l) (hl' : ∀ x ∈ m, x ∉ l') : IsList s' h' m :=
  ⟨hm.nodup, hm.chain.congr (hk.first h' hne) fun x hx =>
    ⟨hk.next x (hl x hx) (hl' x hx), hk.prev x (hl x hx) (hl' x hx)⟩⟩

theorem Keeps.isTailq (hk : Keeps s s' h l l') (hm : IsTailq s h' m) (hne : h' ≠ h)
    (hl : ∀ x ∈ m, x ∉ l) (hl' : ∀ x ∈ m, x ∉ l') : IsTailq s' h' m :=
  ⟨hk.isList hm.toIsList hne hl hl', (hk.last h' hne).trans hm.last⟩

/-- An element that goes in was on no other list. -/
theorem notMem_of_insert (hl : IsList s h l) (he : Unlinked s e) (hm : IsList s h' m) (hne : h' ≠ h)
    (hl' : ∀ x ∈ l', x = e ∨ x ∈ l) : ∀ x ∈ m, x ∉ l' := by
  intro x hx hx'
  rcases hl' x hx' with rfl | hxl
  · exact he h' m hm hx
  · exact hl.disjoint hm hne x hx hxl

/-- From the state of the list of `h` and what is kept, the other lists follow. -/
theorem IsList.yields (hl : IsList s h l) (hrep : IsList s' h l') (hk : Keeps s s' h l l')
    (hl' : ∀ h' m, h' ≠ h → IsList s h' m → ∀ x ∈ m, x ∉ l') : Yields IsList s h l (some s') l' :=
  ⟨s', rfl, hrep, hk, fun h' m hne hm => hk.isList hm hne (hl.disjoint hm hne) (hl' h' m hne hm)⟩

theorem IsTailq.yields (hl : IsTailq s h l) (hrep : IsTailq s' h l') (hk : Keeps s s' h l l')
    (hl' : ∀ h' m, h' ≠ h → IsList s h' m → ∀ x ∈ m, x ∉ l') : Yields IsTailq s h l (some s') l' :=
  ⟨s', rfl, hrep, hk, fun h' m hne hm =>
    hk.isTailq hm hne (hl.toIsList.disjoint hm.toIsList hne) (hl' h' m hne hm.toIsList)⟩

end Frame

-- ---------------------------------------------------------------------------
-- Each macro links or unlinks one element
-- ---------------------------------------------------------------------------

section Macros

variable [DecidableEq ι] [DecidableEq α] {s : Links ι α} {h : ι} {p : Field ι α} {x e : α}

theorem setVal_val_of_ne (s : Links ι α) (v : Option α) {q : Field ι α} (hq : q ≠ p) :
    (setVal s p v).val q = s.val q := Function.update_of_ne hq ..

theorem storeVal_some (s : Links ι α) {q : Option (Field ι α)} (hq : q = some p) (v : Option α) :
    storeVal s q v = some (setVal s p v) := by
  rw [hq]
  rfl

theorem link_eq (s : Links ι α) (p : Field ι α) (e : α) :
    setPrev (setVal ((s.val p).elim (setVal s (.next e) (s.val p)) fun n =>
      setPrev (setVal s (.next e) (s.val p)) n (some (.next e))) p (some e)) e (some p) = s.link p e := by
  unfold Links.link
  cases s.val p with
  | none => rfl
  | some n => rfl

theorem listInsertHead_eq (s : Links ι α) (h : ι) (e : α) :
    listInsertHead s h e = s.link (.first h) e := by
  rw [← link_eq]
  unfold listInsertHead
  have hval := setVal_val_of_ne s (s.val (.first h)) (first_ne_next h e)
  simp only [hval]
  cases s.val (.first h) with
  | none => rfl
  | some n => rfl

theorem listInsertAfter_eq (hne : x ≠ e) : listInsertAfter s x e = s.link (.next x) e := by
  rw [← link_eq]
  unfold listInsertAfter
  have hval := setVal_val_of_ne s (s.val (.next x)) (p := .next e) (q := .next x)
    fun hc => hne (Field.next.inj hc)
  simp only [hval]
  cases s.val (.next x) with
  | none => rfl
  | some n => rfl

theorem listInsertBefore_eq (hp : s.prev x = some p) (hval : s.val p = some x) (hne : x ≠ e) :
    listInsertBefore s x e = some (s.link p e) := by
  have hx : (Function.update s.prev e (s.prev x)) x = some p := (Function.update_of_ne hne ..).trans hp
  show (storeVal (setVal (setPrev s e (s.prev x)) (.next e) (some x))
    (Function.update s.prev e (s.prev x) x) (some e)).bind
      (fun s => some (setPrev s x (some (.next e)))) = _
  rw [storeVal_some _ hx, ← link_eq, hval]
  refine congrArg some ?_
  unfold setPrev setVal
  simp only [Option.elim, hp]
  rw [Function.update_comm hne]

theorem listRemove_eq (hp : s.prev x = some p) : listRemove s x = some (s.unlink p x) := by
  unfold listRemove Links.unlink
  rw [hp]
  cases hn : s.val (.next x) with
  | none =>
    simp only [hp]
    rw [hn]
    rfl
  | some n =>
    have hx : (setPrev s n (some p)).prev x = some p := by
      by_cases hxn : x = n
      · rw [hxn]
        exact Function.update_self ..
      · exact (Function.update_of_ne hxn ..).trans hp
    simp only [hx]
    show some (setVal (setPrev s n (some p)) p (s.val (.next x))) = _
    rw [hn]
    rfl

/-- The two macros on a tail queue with a first element do what those on a list do. -/
theorem tailqInsertHead_eq (s : Links ι α) (h : ι) (e : α) :
    tailqInsertHead s h e =
      (s.val (.first h)).elim (setLast (s.link (.first h) e) h (some (.next e))) fun _ =>
        s.link (.first h) e := by
  rw [← link_eq]
  unfold tailqInsertHead
  have hval := setVal_val_of_ne s (s.val (.first h)) (first_ne_next h e)
  simp only [hval]
  cases s.val (.first h) with
  | none => rfl
  | some n => rfl

theorem tailqInsertTail_eq (hp : s.last h = some p) (hval : s.val p = none) :
    tailqInsertTail s h e = some (setLast (s.link p e) h (some (.next e))) := by
  show (storeVal (setPrev (setVal s (.next e) none) e (s.last h)) (s.last h) (some e)).bind
    (fun s => some (setLast s h (some (.next e)))) = _
  rw [storeVal_some _ hp, ← link_eq, hval, hp]
  rfl

theorem tailqRemove_eq (hp : s.prev x = some p) :
    tailqRemove s h x = some ((s.val (.next x)).elim (setLast (s.unlink p x) h (some p)) fun _ =>
      s.unlink p x) := by
  have hlist := listRemove_eq hp
  unfold listRemove at hlist
  unfold tailqRemove
  cases hn : s.val (.next x) with
  | none =>
    have hset : (setLast s h (s.prev x)).prev x = some p := hp
    simp only [hset]
    show some (setVal (setLast s h (s.prev x)) p (s.val (.next x))) = _
    unfold Links.unlink
    rw [hp, hn]
    rfl
  | some n =>
    simp only [hn] at hlist
    exact hlist

end Macros

-- ---------------------------------------------------------------------------
-- The macros on lists
-- ---------------------------------------------------------------------------

section Lists

variable [DecidableEq ι] [DecidableEq α] {s s' : Links ι α} {h : ι} {p : Field ι α} {x e : α} {l l' l₁ l₂ : List α}

omit [DecidableEq ι] [DecidableEq α] in
theorem next_ne_endOf (h : ι) (hx : x ∉ l) : Field.next x ≠ endOf (.first h) l := by
  intro hc
  rcases endOf_cases (.first h) l with he | ⟨y, hy, he⟩
  · exact first_ne_next h x (hc.trans he).symm
  · exact hx (Field.next.inj (hc.trans he) ▸ hy)

omit [DecidableEq ι] [DecidableEq α] in
theorem first_ne_endOf {h' : ι} (hne : h' ≠ h) : Field.first h' ≠ endOf (.first h) l := by
  intro hc
  rcases endOf_cases (.first h) l with he | ⟨y, -, he⟩
  · exact hne (Field.first.inj (hc.trans he))
  · exact first_ne_next h' y (hc.trans he)

theorem keeps_link (hc : Chain s (.first h) (l₁ ++ l₂)) (e : α) :
    Keeps s (s.link (endOf (.first h) l₁) e) h (l₁ ++ l₂) (l₁ ++ e :: l₂) := by
  refine ⟨fun x hx hx' => ?_, fun x hx hx' => ?_, fun h' hne => ?_, fun h' _ => rfl⟩
  · rw [List.mem_append, not_or] at hx
    rw [List.mem_append, List.mem_cons, not_or, not_or] at hx'
    exact link_val_of_ne (next_ne_endOf h hx.1) fun hc => hx'.2.1 (Field.next.inj hc)
  · rw [List.mem_append, not_or] at hx
    rw [List.mem_append, List.mem_cons, not_or, not_or] at hx'
    refine link_prev_of_ne ?_ hx'.2.1
    rw [hc.val_endOf]
    exact fun hhead => hx.2 (List.mem_of_mem_head? hhead)
  · exact link_val_of_ne (first_ne_endOf hne) (first_ne_next h' e)

theorem keeps_unlink (hc : Chain s (.first h) (l₁ ++ e :: l₂)) :
    Keeps s (s.unlink (endOf (.first h) l₁) e) h (l₁ ++ e :: l₂) (l₁ ++ l₂) := by
  refine ⟨fun x _ hx => ?_, fun x _ hx => ?_, fun h' hne => ?_, fun h' _ => rfl⟩
  · rw [List.mem_append, not_or] at hx
    exact unlink_val_of_ne (next_ne_endOf h hx.1)
  · rw [List.mem_append, not_or] at hx
    refine unlink_prev_of_ne ?_
    rw [hc.next_eq]
    exact fun hhead => hx.2 (List.mem_of_mem_head? hhead)
  · exact unlink_val_of_ne (first_ne_endOf hne)

theorem isList_link (hl : IsList s h (l₁ ++ l₂)) (he : e ∉ l₁ ++ l₂) :
    IsList (s.link (endOf (.first h) l₁) e) h (l₁ ++ e :: l₂) :=
  ⟨List.nodup_middle.mpr (List.nodup_cons.mpr ⟨he, hl.nodup⟩),
    hl.chain.link hl.nodup he (outside_first h _)⟩

theorem isList_unlink (hl : IsList s h (l₁ ++ e :: l₂)) :
    IsList (s.unlink (endOf (.first h) l₁) e) h (l₁ ++ l₂) :=
  ⟨(List.nodup_cons.mp (List.nodup_middle.mp hl.nodup)).2,
    hl.chain.unlink hl.nodup (outside_first h _)⟩

omit [DecidableEq α] in
theorem IsList.setLast (hl : IsList s h l) (p : Option (Field ι α)) : IsList (setLast s h p) h l :=
  ⟨hl.nodup, hl.chain.congr rfl fun _ _ => ⟨rfl, rfl⟩⟩

omit [DecidableEq α] in
theorem Keeps.setLast (hk : Keeps s s' h l l') (p : Option (Field ι α)) :
    Keeps s (setLast s' h p) h l l' :=
  ⟨hk.next, hk.prev, hk.first, fun h' hne => (Function.update_of_ne hne ..).trans (hk.last h' hne)⟩

omit [DecidableEq ι] [DecidableEq α] in
theorem mem_insert (hx : x ∈ l₁ ++ e :: l₂) : x = e ∨ x ∈ l₁ ++ l₂ := by
  rwa [List.mem_append, List.mem_cons, or_left_comm, ← List.mem_append] at hx

omit [DecidableEq ι] [DecidableEq α] in
theorem mem_erase (hx : x ∈ l₁ ++ l₂) : x ∈ l₁ ++ e :: l₂ := by
  rw [List.mem_append, List.mem_cons, or_left_comm, ← List.mem_append]
  exact Or.inr hx

/-- An element that is on no list goes in at any place of a list. -/
theorem IsList.insert (hl : IsList s h (l₁ ++ l₂)) (he : Unlinked s e) :
    Yields IsList s h (l₁ ++ l₂) (some (s.link (endOf (.first h) l₁) e)) (l₁ ++ e :: l₂) :=
  hl.yields (isList_link hl (he h _ hl)) (keeps_link hl.chain e) fun _ _ hne hm =>
    notMem_of_insert hl he hm hne fun _ hx => mem_insert hx

theorem IsList.remove (hl : IsList s h (l₁ ++ x :: l₂)) :
    Yields IsList s h (l₁ ++ x :: l₂) (listRemove s x) (l₁ ++ l₂) := by
  rw [listRemove_eq hl.chain.prev_endOf]
  exact hl.yields (isList_unlink hl) (keeps_unlink hl.chain) fun _ _ hne hm y hy hyl =>
    hl.disjoint hm hne y hy (mem_erase hyl)

theorem IsList.insertHead (hl : IsList s h l) (he : Unlinked s e) :
    Yields IsList s h l (some (listInsertHead s h e)) (e :: l) := by
  have hl' : IsList s h ([] ++ l) := hl
  rw [listInsertHead_eq]
  exact hl'.insert he

theorem IsList.insertAfter (hl : IsList s h (l₁ ++ x :: l₂)) (he : Unlinked s e) :
    Yields IsList s h (l₁ ++ x :: l₂) (some (listInsertAfter s x e)) (l₁ ++ x :: e :: l₂) := by
  have hne : x ≠ e := fun hc => he h _ hl (hc ▸ List.mem_append_cons_self)
  have hsplit : ∀ m : List α, l₁ ++ x :: m = (l₁ ++ [x]) ++ m := fun m => by
    rw [List.append_assoc, List.singleton_append]
  have hend : endOf (.first h) (l₁ ++ [x]) = Field.next x := endOf_append ..
  have hins := IsList.insert (hsplit l₂ ▸ hl) he
  rwa [hend, ← hsplit, ← hsplit, ← listInsertAfter_eq hne] at hins

theorem IsList.insertBefore (hl : IsList s h (l₁ ++ x :: l₂)) (he : Unlinked s e) :
    Yields IsList s h (l₁ ++ x :: l₂) (listInsertBefore s x e) (l₁ ++ e :: x :: l₂) := by
  have hne : x ≠ e := fun hc => he h _ hl (hc ▸ List.mem_append_cons_self)
  rw [listInsertBefore_eq hl.chain.prev_endOf hl.chain.val_endOf hne]
  exact hl.insert he

-- On a tail queue the macros also move `tqh_last`, if the last element changes.

theorem IsTailq.insertHead (hl : IsTailq s h l) (he : Unlinked s e) :
    Yields IsTailq s h l (some (tailqInsertHead s h e)) (e :: l) := by
  have hlist : IsList s h ([] ++ l) := hl.toIsList
  have hlink : IsList (s.link (.first h) e) h (e :: l) := isList_link hlist (he h _ hlist)
  have hkeep : Keeps s (s.link (.first h) e) h l (e :: l) := keeps_link hlist.chain e
  rw [tailqInsertHead_eq]
  cases l with
  | nil =>
    have hval : s.val (.first h) = none := hlist.chain
    rw [hval]
    refine hl.yields ⟨hlink.setLast _, Function.update_self ..⟩ (hkeep.setLast _) ?_
    exact fun _ _ hne hm => notMem_of_insert hlist he hm hne fun _ hx => List.mem_cons.mp hx
  | cons n l =>
    rw [hlist.chain.1]
    refine hl.yields ⟨hlink, hl.last⟩ hkeep ?_
    exact fun _ _ hne hm => notMem_of_insert hlist he hm hne fun _ hx => List.mem_cons.mp hx

theorem IsTailq.insertTail (hl : IsTailq s h l) (he : Unlinked s e) :
    Yields IsTailq s h l (tailqInsertTail s h e) (l ++ [e]) := by
  have hlist : IsList s h (l ++ []) := by
    rw [List.append_nil]
    exact hl.toIsList
  have hval : s.val (endOf (.first h) l) = none := hlist.chain.val_endOf
  have hkeep := keeps_link hlist.chain e
  rw [List.append_nil] at hkeep
  rw [tailqInsertTail_eq hl.last hval]
  refine hl.yields ⟨(isList_link hlist (he h _ hlist)).setLast _, ?_⟩ (hkeep.setLast _) ?_
  · rw [endOf_append]
    exact Function.update_self ..
  · intro h' m hne hm
    refine notMem_of_insert hlist he hm hne fun x hx => ?_
    rw [List.append_nil]
    exact (List.mem_append.mp hx).symm.imp_left List.mem_singleton.mp

theorem IsTailq.remove (hl : IsTailq s h (l₁ ++ x :: l₂)) :
    Yields IsTailq s h (l₁ ++ x :: l₂) (tailqRemove s h x) (l₁ ++ l₂) := by
  have hlist := hl.toIsList
  have hrep := isList_unlink hlist
  have hkeep := keeps_unlink hlist.chain
  rw [tailqRemove_eq hlist.chain.prev_endOf, hlist.chain.next_eq]
  cases l₂ with
  | nil =>
    refine hl.yields ⟨hrep.setLast _, ?_⟩ (hkeep.setLast _) ?_
    · rw [List.append_nil]
      exact Function.update_self ..
    · exact fun _ _ hne hm y hy hyl => hlist.disjoint hm hne y hy (mem_erase hyl)
  | cons n l₂ =>
    refine hl.yields ⟨hrep, ?_⟩ hkeep ?_
    · refine hl.last.trans ?_
      rw [endOf_append, endOf_append]
      rfl
    · exact fun _ _ hne hm y hy hyl => hlist.disjoint hm hne y hy (mem_erase hyl)

theorem isTailq_init (s : Links ι α) (h : ι) : IsTailq (tailqInit s h) h [] :=
  ⟨⟨List.nodup_nil, Function.update_self ..⟩, Function.update_self ..⟩

theorem isList_init (s : Links ι α) (h : ι) : IsList (listInit s h) h [] :=
  ⟨List.nodup_nil, Function.update_self ..⟩

end Lists

/-- **The queue macros.** For every well-formed list, or tail queue, each macro does to the
links what its name says of the list, at any place of it, and nothing to other lists. -/
theorem queue_macros [DecidableEq ι] [DecidableEq α] (s : Links ι α) (h : ι) (l : List α) :
    (IsList s h l →
      (∀ e, Unlinked s e → Yields IsList s h l (some (listInsertHead s h e)) (e :: l)) ∧
      (∀ e l₁ x l₂, Unlinked s e → l = l₁ ++ x :: l₂ →
        Yields IsList s h l (some (listInsertAfter s x e)) (l₁ ++ x :: e :: l₂) ∧
        Yields IsList s h l (listInsertBefore s x e) (l₁ ++ e :: x :: l₂)) ∧
      (∀ l₁ x l₂, l = l₁ ++ x :: l₂ → Yields IsList s h l (listRemove s x) (l₁ ++ l₂))) ∧
    (IsTailq s h l →
      (∀ e, Unlinked s e → Yields IsTailq s h l (some (tailqInsertHead s h e)) (e :: l) ∧
        Yields IsTailq s h l (tailqInsertTail s h e) (l ++ [e])) ∧
      (∀ l₁ x l₂, l = l₁ ++ x :: l₂ → Yields IsTailq s h l (tailqRemove s h x) (l₁ ++ l₂))) := by
  constructor
  · intro hl
    refine ⟨fun e he => hl.insertHead he, ?_, ?_⟩
    · rintro e l₁ x l₂ he rfl
      exact ⟨hl.insertAfter he, hl.insertBefore he⟩
    · rintro l₁ x l₂ rfl
      exact hl.remove
  · intro hl
    refine ⟨fun e he => ⟨hl.insertHead he, hl.insertTail he⟩, ?_⟩
    rintro l₁ x l₂ rfl
    exact hl.remove

/-- Two elements on a tail queue, linked as the macros leave them. -/
def twoLinked : Links Unit Nat where
  val
    | .first _ => some 1
    | .next 1 => some 2
    | .next _ => none
  prev
    | 1 => some (.first ())
    | 2 => some (.next 1)
    | _ => none
  last _ := some (.next 2)

/-- The first of two goes out of the queue, and a third goes in behind it on the list. -/
theorem queue_macros_two :
    (∃ s', tailqRemove twoLinked () 1 = some s' ∧ IsTailq s' () [2]) ∧
      IsList (listInsertAfter twoLinked 1 3) () [1, 3, 2] := by
  have hlist : IsList twoLinked () [1, 2] := ⟨by decide, rfl, rfl, rfl, rfl, rfl⟩
  have hfree : Unlinked twoLinked 3 := by
    intro h l hl hc
    obtain ⟨q, hq, -⟩ := hl.chain.prev_mem hc
    cases hq
  have hqueue := (queue_macros twoLinked () [1, 2]).2 ⟨hlist, rfl⟩
  obtain ⟨s', hs', hrep, -⟩ := hqueue.2 [] 1 [2] rfl
  obtain ⟨s'', hs'', hrep', -⟩ := (((queue_macros twoLinked () [1, 2]).1 hlist).2.1 3 [] 1 [2] hfree rfl).1
  rw [Option.some.inj hs'']
  exact ⟨⟨s', hs', hrep⟩, hrep'⟩

-- ---------------------------------------------------------------------------
-- The run queue of the kernel
-- ---------------------------------------------------------------------------

section RunQueue

variable [DecidableEq α] {l : List α}

/-- An address of the run queue, with the head it belongs to. -/
def fieldAt : LinkAddr α → Option (Field Unit α)
  | .null => none
  | .head => some (.first ())
  | .next e => some (.next e)

/-- The links of a tail queue that has its heap to itself. -/
def queueLinks (q : TailQueue α) : Links Unit α where
  val
    | .first _ => q.first
    | .next e => q.next e
  prev e := fieldAt (q.prev e)
  last _ := fieldAt q.last

theorem queueLinks_first (q : TailQueue α) (v : Option α) :
    queueLinks { q with first := v } = setVal (queueLinks q) (.first ()) v := by
  have hval : (queueLinks { q with first := v }).val =
      Function.update (queueLinks q).val (.first ()) v := by
    funext f
    cases f with
    | first h => exact (Function.update_self (Field.first h) v (queueLinks q).val).symm
    | next x => exact (Function.update_of_ne (first_ne_next () x).symm ..).symm
  unfold setVal
  rw [← hval]
  rfl

theorem queueLinks_next (q : TailQueue α) (e : α) (v : Option α) :
    queueLinks { q with next := Function.update q.next e v } = setVal (queueLinks q) (.next e) v := by
  have hval : (queueLinks { q with next := Function.update q.next e v }).val =
      Function.update (queueLinks q).val (.next e) v := by
    funext f
    cases f with
    | first h => exact (Function.update_of_ne (first_ne_next h e) ..).symm
    | next x =>
      show Function.update q.next e v x = _
      by_cases hx : x = e
      · rw [hx, Function.update_self, Function.update_self]
      · rw [Function.update_of_ne hx, Function.update_of_ne fun hc => hx (Field.next.inj hc)]
        rfl
  unfold setVal
  rw [← hval]
  rfl

theorem queueLinks_prev (q : TailQueue α) (e : α) (p : LinkAddr α) :
    queueLinks { q with prev := Function.update q.prev e p } = setPrev (queueLinks q) e (fieldAt p) := by
  have hprev : (queueLinks { q with prev := Function.update q.prev e p }).prev =
      Function.update (queueLinks q).prev e (fieldAt p) := by
    funext x
    show fieldAt (Function.update q.prev e p x) = _
    by_cases hx : x = e
    · rw [hx, Function.update_self, Function.update_self]
    · rw [Function.update_of_ne hx, Function.update_of_ne hx]
      rfl
  unfold setPrev
  rw [← hprev]
  rfl

omit [DecidableEq α] in
theorem queueLinks_last (q : TailQueue α) (p : LinkAddr α) :
    queueLinks { q with last := p } = setLast (queueLinks q) () (fieldAt p) := by
  have hlast : (queueLinks { q with last := p }).last =
      Function.update (queueLinks q).last () (fieldAt p) := by
    funext x
    exact (Function.update_self x (fieldAt p) (queueLinks q).last).symm
  unfold setLast
  rw [← hlast]
  rfl

theorem queueLinks_put (q : TailQueue α) (p : LinkAddr α) (v : Option α) :
    (q.put p v).map queueLinks = storeVal (queueLinks q) (fieldAt p) v := by
  cases p with
  | null => rfl
  | head => exact congrArg some (queueLinks_first q v)
  | next e => exact congrArg some (queueLinks_next q e v)

theorem queueLinks_insertHead (q : TailQueue α) (e : α) :
    queueLinks (q.insertHead e) = tailqInsertHead (queueLinks q) () e := by
  have hval := setVal_val_of_ne (queueLinks q) q.first (first_ne_next () e)
  have hfirst : (queueLinks q).val (.first ()) = q.first := rfl
  unfold tailqInsertHead
  simp only [hfirst, hval]
  rw [← queueLinks_next]
  obtain ⟨first, last, next, prev⟩ := q
  cases first with
  | none =>
    refine (queueLinks_prev ⟨some e, .next e, Function.update next e none, prev⟩ e .head).trans ?_
    rw [queueLinks_first ⟨none, .next e, Function.update next e none, prev⟩,
      queueLinks_last ⟨none, last, Function.update next e none, prev⟩]
    rfl
  | some n =>
    refine (queueLinks_prev ⟨some e, last, Function.update next e (some n),
      Function.update prev n (.next e)⟩ e .head).trans ?_
    rw [queueLinks_first ⟨some n, last, Function.update next e (some n),
        Function.update prev n (.next e)⟩,
      queueLinks_prev ⟨some n, last, Function.update next e (some n), prev⟩]
    rfl

theorem queueLinks_insertTail (q : TailQueue α) (e : α) :
    (q.insertTail e).map queueLinks = tailqInsertTail (queueLinks q) () e := by
  obtain ⟨first, last, next, prev⟩ := q
  have hput := queueLinks_put ⟨first, last, Function.update next e none, Function.update prev e last⟩
    last (some e)
  rw [queueLinks_prev ⟨first, last, Function.update next e none, prev⟩,
    queueLinks_next ⟨first, last, next, prev⟩] at hput
  show Option.map queueLinks (Option.bind (TailQueue.put ⟨first, last, Function.update next e none,
    Function.update prev e last⟩ last (some e)) fun q => some { q with last := .next e }) =
    Option.bind (storeVal _ _ _) fun s => some (setLast s () (some (.next e)))
  refine Eq.trans ?_ (congrArg (fun o => Option.bind o fun s => some (setLast s () (some (.next e)))) hput)
  cases TailQueue.put ⟨first, last, Function.update next e none, Function.update prev e last⟩ last
    (some e) with
  | none => rfl
  | some q => exact congrArg some (queueLinks_last q (.next e))

theorem queueLinks_remove (q : TailQueue α) (e : α) :
    (q.remove e).map queueLinks = tailqRemove (queueLinks q) () e := by
  have hval : (queueLinks q).val (.next e) = q.next e := rfl
  unfold TailQueue.remove tailqRemove
  rw [hval]
  cases q.next e with
  | none =>
    refine (queueLinks_put { q with last := q.prev e } _ _).trans ?_
    rw [queueLinks_last]
    rfl
  | some n =>
    refine (queueLinks_put { q with prev := Function.update q.prev n (q.prev e) } _ _).trans ?_
    have hprev := congrArg (fun s => s.prev e) (queueLinks_prev q n (q.prev e))
    rw [queueLinks_prev]
    exact congrArg (fun f => storeVal _ f (q.next e)) hprev

omit [DecidableEq α] in
/-- What the kernel keeps of its run queue is that the queue is a well-formed tail queue. -/
theorem queueLinks_isTailq {q : TailQueue α} (h : q.Rep l) : IsTailq (queueLinks q) () l := by
  have hend : ∀ (m : List α) (p : LinkAddr α) (f : Field Unit α), fieldAt p = some f →
      fieldAt (TailQueue.endOf p m) = some (endOf f m) := by
    intro m
    induction m with
    | nil => exact fun p f hp => hp
    | cons x m ih => exact fun p f _ => ih (.next x) (.next x) rfl
  have hget : ∀ (p : LinkAddr α) (f : Field Unit α), fieldAt p = some f →
      (queueLinks q).val f = q.get p := by
    intro p f hp
    cases p with
    | null => cases hp
    | head =>
      rw [← Option.some.inj hp]
      rfl
    | next x =>
      rw [← Option.some.inj hp]
      rfl
  have hchain : ∀ (m : List α) (p : LinkAddr α) (f : Field Unit α), fieldAt p = some f →
      TailQueue.Seg q p m → q.get (TailQueue.endOf p m) = none → Chain (queueLinks q) f m := by
    intro m
    induction m with
    | nil => exact fun p f hp _ hstop => (hget p f hp).trans hstop
    | cons x m ih =>
      intro p f hp hseg hstop
      refine ⟨(hget p f hp).trans hseg.1, ?_, ih (.next x) (.next x) rfl hseg.2.2 hstop⟩
      show fieldAt (q.prev x) = some f
      rw [hseg.2.1, hp]
  refine ⟨⟨h.nodup, hchain l .head _ rfl h.seg (h.last ▸ h.stop)⟩, ?_⟩
  show fieldAt q.last = _
  rw [h.last]
  exact hend l .head _ rfl

end RunQueue

end Mos.Base
