import Mathlib.Logic.Relation
import Mos.Lib.Program

/-!
# Processes that make others and wait for them

A process runs a `Program`. It may fork, have another program loaded into a new process,
wait until a process has ended, and exit; what else it asks for concerns no other process.
Processes take steps in any order. A program is `Careful` if on every path it has waited for
each process it has made before it exits or comes to its end.

Main results:

* `Tended.step` — a step keeps what careful programs know of their children;
* `Careful.orderly` — in every run from a careful program, a process that has ended has left
  no child behind;
* `Careful.alone` — when the first process is through, there is no other.
-/

namespace Mos.Lib

/-- What a process asks for. -/
inductive ProcReq (P R : Type) where
  | fork
  | spawn (p : P)          -- a process that runs `p`
  | wait (pid : Int)
  | exit
  | other (r : R)

variable {P R : Type} {A : R → Type}

def ProcReq.Ans (A : R → Type) : ProcReq P R → Type
  | .fork => Int
  | .spawn _ => Int
  | .wait _ => Unit
  | .exit => Empty
  | .other r => A r

abbrev ProcM (P : Type) (A : R → Type) := Program (ProcReq P R) (ProcReq.Ans A)

inductive Proc (P : Type) (A : R → Type) where
  | code (p : ProcM P A Unit)
  | loaded (p : P)         -- it may end at any time

/-- The processes that are live, by id, and which process each one was made by. The ids from
`next` on have not been used. -/
structure Procs (P : Type) (A : R → Type) where
  next : Nat
  parent : Nat → Option Nat
  live : Nat → Option (Proc P A)

namespace Procs

def set (s : Procs P A) (i : Nat) (q : Option (Proc P A)) : Procs P A := { s with live := Function.update s.live i q }

/-- The process `i` makes a new one, `q'`, and is `q` then. -/
def make (s : Procs P A) (i : Nat) (q q' : Proc P A) : Procs P A where
  next := s.next + 1
  parent := Function.update s.parent s.next (some i)
  live := Function.update (Function.update s.live i (some q)) s.next (some q')

/-- The first process, and no other. -/
def start (root : Nat) (p : ProcM P A Unit) : Procs P A where
  next := root + 1
  parent := fun _ => none
  live := fun i => if i = root then some (.code p) else none

/-- A step of one process; `ok` says which answers the surroundings give. -/
inductive Step (ok : (r : R) → A r → Prop) : Procs P A → Procs P A → Prop where
  | other {s : Procs P A} {i : Nat} {r : R} {f : A r → ProcM P A Unit} {a : A r} :
      s.live i = some (.code (.ask (.other r) f)) → ok r a → Step ok s (s.set i (some (.code (f a))))
  | fork {s : Procs P A} {i : Nat} {f : Int → ProcM P A Unit} :
      s.live i = some (.code (.ask .fork f)) → Step ok s (s.make i (.code (f s.next)) (.code (f 0)))
  | spawn {s : Procs P A} {i : Nat} {p : P} {f : Int → ProcM P A Unit} :
      s.live i = some (.code (.ask (.spawn p) f)) → Step ok s (s.make i (.code (f s.next)) (.loaded p))
  | wait {s : Procs P A} {i : Nat} {pid : Int} {f : Unit → ProcM P A Unit} :
      s.live i = some (.code (.ask (.wait pid) f)) → (∀ j : Nat, pid = j → s.live j = none) →
      Step ok s (s.set i (some (.code (f ()))))
  | exit {s : Procs P A} {i : Nat} {f : Empty → ProcM P A Unit} :
      s.live i = some (.code (.ask .exit f)) → Step ok s (s.set i none)
  | ends {s : Procs P A} {i : Nat} {p : P} : s.live i = some (.loaded p) → Step ok s (s.set i none)

/-- Any number of steps. -/
abbrev Reach (ok : (r : R) → A r → Prop) : Procs P A → Procs P A → Prop := Relation.ReflTransGen (Step ok)

/-- A process that has ended has no live child. -/
def Orderly (s : Procs P A) : Prop := ∀ i j, s.parent j = some i → s.live i = none → s.live j = none

end Procs

/-- The program waits for the processes of `cs`, and for those it makes, before it exits or
comes to its end. -/
def Careful : List Int → ProcM P A Unit → Prop
  | cs, .ret _ => cs = []
  | _, .abort => True
  | cs, .ask .fork f => Careful [] (f (0 : Int)) ∧ ∀ c : Int, 0 < c → Careful (c :: cs) (f c)
  | cs, .ask (.spawn _) f => ∀ c : Int, 0 < c → Careful (c :: cs) (f c)
  | cs, .ask (.wait pid) f => Careful (cs.filter (· ≠ pid)) (f ())
  | cs, .ask .exit _ => cs = []
  | cs, .ask (.other _) f => ∀ a, Careful cs (f a)

/-- What is known of a process whose live children are in `cs`. -/
def Minds (cs : List Int) : Option (Proc P A) → Prop
  | none => cs = []
  | some (.loaded _) => cs = []
  | some (.code p) => Careful cs p

namespace Procs

variable {ok : (r : R) → A r → Prop} {s s' : Procs P A} {i j root : Nat} {p : ProcM P A Unit} {q q' : Proc P A}
  {cs : List Int}

/-- The live children of `i` are in `cs`. -/
def Among (s : Procs P A) (i : Nat) (cs : List Int) : Prop :=
  ∀ j, s.parent j = some i → s.live j ≠ none → (j : Int) ∈ cs

/-- What holds in a run from a careful program. -/
structure Tended (root : Nat) (s : Procs P A) : Prop where
  positive : 0 < root ∧ root < s.next
  fresh : ∀ j, s.next ≤ j → s.live j = none ∧ s.parent j = none
  older : ∀ i j, s.parent j = some i → i < j
  orphan : ∀ j, s.parent j = none → s.live j ≠ none → j = root
  minds : ∀ i, ∃ cs, Minds cs (s.live i) ∧ s.Among i cs

theorem start_self : (start root p).live root = some (.code p) := if_pos rfl

theorem start_of_ne (h : j ≠ root) : (start root p).live j = none := if_neg h

theorem set_self {o : Option (Proc P A)} : (s.set i o).live i = o := Function.update_self ..

theorem set_of_ne {o : Option (Proc P A)} (h : j ≠ i) : (s.set i o).live j = s.live j := Function.update_of_ne h ..

theorem make_next : (s.make i q q').live s.next = some q' := Function.update_self ..

theorem make_self (h : i ≠ s.next) : (s.make i q q').live i = some q :=
  (Function.update_of_ne h ..).trans (Function.update_self ..)

theorem make_of_ne (h : j ≠ i) (h' : j ≠ s.next) : (s.make i q q').live j = s.live j :=
  (Function.update_of_ne h' ..).trans (Function.update_of_ne h ..)

theorem make_parent_next : (s.make i q q').parent s.next = some i := Function.update_self ..

theorem make_parent_of_ne (h : j ≠ s.next) : (s.make i q q').parent j = s.parent j := Function.update_of_ne h ..

namespace Tended

theorem start (hroot : 0 < root) (h : Careful [] p) : Tended root (start root p) where
  positive := ⟨hroot, Nat.lt_succ_self root⟩
  fresh := fun j hj => ⟨start_of_ne (Nat.ne_of_gt hj), rfl⟩
  older := fun i j hij => absurd hij.symm (Option.some_ne_none i)
  orphan := fun j _ hj => by
    by_contra hne
    exact hj (start_of_ne hne)
  minds := fun i => by
    refine ⟨[], ?_, fun j hj => absurd hj.symm (Option.some_ne_none i)⟩
    by_cases hi : i = root
    · rw [hi, start_self]
      exact h
    · rw [start_of_ne hi]
      rfl

theorem lt_next (h : Tended root s) (hi : s.live i ≠ none) : i < s.next := by
  by_contra hge
  exact hi (h.fresh i (Nat.le_of_not_lt hge)).1

/-- A process goes on, or ends. -/
theorem set {o : Option (Proc P A)} (h : Tended root s) (hi : s.live i ≠ none) (ho : Minds cs o) (hcs : s.Among i cs) :
    Tended root (s.set i o) := by
  have hlive : ∀ j, (s.set i o).live j ≠ none → s.live j ≠ none := by
    intro j hj
    by_cases hji : j = i
    · rwa [hji]
    · rwa [set_of_ne hji] at hj
  refine ⟨h.positive, fun j hj => ?_, h.older, fun j hj hl => h.orphan j hj (hlive j hl), fun k => ?_⟩
  · rw [set_of_ne (Nat.ne_of_gt (Nat.lt_of_lt_of_le (h.lt_next hi) hj))]
    exact h.fresh j hj
  · by_cases hk : k = i
    · refine ⟨cs, ?_, fun j hj hl => ?_⟩
      · rwa [hk, set_self]
      · rw [hk] at hj
        exact hcs j hj (hlive j hl)
    · obtain ⟨ds, hm, hds⟩ := h.minds k
      refine ⟨ds, ?_, fun j hj hl => hds j hj (hlive j hl)⟩
      rwa [set_of_ne hk]

/-- A process makes a new one, and minds it from now on. -/
theorem make (h : Tended root s) (hi : s.live i ≠ none) (hq : Minds ((s.next : Int) :: cs) (some q))
    (hcs : s.Among i cs) (hq' : Minds [] (some q')) : Tended root (s.make i q q') := by
  have hlt : i < s.next := h.lt_next hi
  have hlive : ∀ j, j ≠ s.next → (s.make i q q').live j ≠ none → s.live j ≠ none := by
    intro j hne hj
    by_cases hji : j = i
    · rwa [hji]
    · rwa [make_of_ne hji hne] at hj
  refine ⟨⟨h.positive.1, Nat.lt_succ_of_lt h.positive.2⟩, fun j hj => ?_, fun k j hj => ?_, fun j hj hl => ?_, fun k => ?_⟩
  · have hne : j ≠ s.next := Nat.ne_of_gt hj
    rw [make_of_ne (Nat.ne_of_gt (Nat.lt_trans hlt hj)) hne, make_parent_of_ne hne]
    exact h.fresh j (Nat.le_of_lt hj)
  · by_cases hnext : j = s.next
    · rw [hnext, make_parent_next] at hj
      rwa [hnext, ← Option.some.inj hj]
    · rw [make_parent_of_ne hnext] at hj
      exact h.older k j hj
  · by_cases hnext : j = s.next
    · rw [hnext, make_parent_next] at hj
      exact absurd hj (Option.some_ne_none i)
    · rw [make_parent_of_ne hnext] at hj
      exact h.orphan j hj (hlive j hnext hl)
  · by_cases hknext : k = s.next
    · refine ⟨[], ?_, fun j hj _ => ?_⟩
      · rwa [hknext, make_next]
      · rw [hknext] at hj
        by_cases hnext : j = s.next
        · rw [hnext, make_parent_next] at hj
          exact absurd (Option.some.inj hj) (Nat.ne_of_lt hlt)
        · rw [make_parent_of_ne hnext] at hj
          have hnone := (h.fresh j (Nat.le_of_lt (h.older _ _ hj))).2
          rw [hj] at hnone
          exact absurd hnone (Option.some_ne_none _)
    · by_cases hki : k = i
      · refine ⟨(s.next : Int) :: cs, ?_, fun j hj hl => ?_⟩
        · rwa [hki, make_self (Nat.ne_of_lt hlt)]
        · by_cases hnext : j = s.next
          · rw [hnext]
            exact List.mem_cons_self
          · rw [make_parent_of_ne hnext, hki] at hj
            exact List.mem_cons_of_mem _ (hcs j hj (hlive j hnext hl))
      · obtain ⟨ds, hm, hds⟩ := h.minds k
        refine ⟨ds, ?_, fun j hj hl => ?_⟩
        · rwa [make_of_ne hki hknext]
        · by_cases hnext : j = s.next
          · rw [hnext, make_parent_next] at hj
            exact absurd (Option.some.inj hj).symm hki
          · rw [make_parent_of_ne hnext] at hj
            exact hds j hj (hlive j hnext hl)

/-- **Step.** -/
theorem step (h : Tended root s) (hstep : Step ok s s') : Tended root s' := by
  have hpos : (0 : Int) < s.next := by
    have := h.positive
    omega
  have hmind : ∀ {i : Nat} {o : Proc P A}, s.live i = some o → s.live i ≠ none ∧ ∃ cs, Minds cs (some o) ∧ s.Among i cs := by
    intro i o hi
    obtain ⟨cs, hm, hcs⟩ := h.minds i
    rw [hi] at hm
    exact ⟨hi ▸ Option.some_ne_none o, cs, hm, hcs⟩
  cases hstep with
  | other hi _ =>
    obtain ⟨hne, cs, hm, hcs⟩ := hmind hi
    exact h.set hne (o := some (.code _)) (hm _) hcs
  | fork hi =>
    obtain ⟨hne, cs, hm, hcs⟩ := hmind hi
    exact h.make hne (hm.2 _ hpos) hcs hm.1
  | spawn hi =>
    obtain ⟨hne, cs, hm, hcs⟩ := hmind hi
    exact h.make hne (hm _ hpos) hcs rfl
  | @wait i pid f hi hended =>
    obtain ⟨hne, cs, hm, hcs⟩ := hmind hi
    refine h.set hne (o := some (.code _)) hm fun j hj hl => List.mem_filter.mpr ⟨hcs j hj hl, ?_⟩
    exact decide_eq_true fun hpid => hl (hended j hpid.symm)
  | exit hi =>
    obtain ⟨hne, cs, hm, hcs⟩ := hmind hi
    exact h.set hne (o := none) hm hcs
  | ends hi =>
    obtain ⟨hne, cs, hm, hcs⟩ := hmind hi
    exact h.set hne (o := none) hm hcs

/-- **Run.** -/
theorem reach (h : Tended root s) (hreach : Reach ok s s') : Tended root s' := by
  induction hreach with
  | refl => exact h
  | tail _ hstep ih => exact ih.step hstep

theorem orderly (h : Tended root s) : Orderly s := by
  intro i j hj hi
  by_contra hl
  obtain ⟨cs, hm, hcs⟩ := h.minds i
  rw [hi] at hm
  exact absurd (hm ▸ hcs j hj hl) List.not_mem_nil

/-- When the first process is through, all others have ended. -/
theorem alone (h : Tended root s) (hroot : s.live root = some (.code (.ret ()))) (hj : j ≠ root) : s.live j = none := by
  induction j using Nat.strongRecOn with
  | ind j ih =>
    by_contra hl
    obtain ⟨i, hi⟩ := Option.ne_none_iff_exists'.mp fun hnone => hj (h.orphan j hnone hl)
    by_cases hir : i = root
    · obtain ⟨cs, hm, hcs⟩ := h.minds i
      rw [hir] at hm hcs hi
      rw [hroot] at hm
      exact absurd ((show cs = [] from hm) ▸ hcs j hi hl) List.not_mem_nil
    · exact hl (h.orderly i j hi (ih i (h.older i j hi) hir))

end Tended

end Procs

namespace Careful

variable {ok : (r : R) → A r → Prop} {s : Procs P A} {root : Nat} {p : ProcM P A Unit}

theorem orderly (h : Careful [] p) (hroot : 0 < root) (hreach : Procs.Reach ok (Procs.start root p) s) : s.Orderly :=
  ((Procs.Tended.start hroot h).reach hreach).orderly

theorem alone (h : Careful [] p) (hroot : 0 < root) (hreach : Procs.Reach ok (Procs.start root p) s)
    (hthrough : s.live root = some (.code (.ret ()))) : ∀ j, j ≠ root → s.live j = none :=
  fun _ => ((Procs.Tended.start hroot h).reach hreach).alone hthrough

end Careful

end Mos.Lib
