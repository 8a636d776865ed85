import Mathlib.Data.Stream.Init

/-!
# Weighted round robin as a stream

`slots p l` lists the elements of `l`, each as often as its weight says, and
`roundRobin p l n` are the first `n` elements of their infinite repetition.
`turnStream p e q c` is what is still to come when `e` has `c` turns left and
`q` waits behind it: `turnStream_succ` and `turnStream_zero` are the two steps
of a round-robin scheduler.
-/

namespace Mos.Lib

open Stream'

variable {α : Type}

/-- Each element of `l`, `p e` times in a row. -/
def slots (p : α → Nat) (l : List α) : List α := l.flatMap fun e => List.replicate (p e) e

theorem slots_cons (p : α → Nat) (e : α) (l : List α) :
    slots p (e :: l) = List.replicate (p e) e ++ slots p l := rfl

theorem slots_concat (p : α → Nat) (l : List α) (e : α) :
    slots p (l ++ [e]) = slots p l ++ List.replicate (p e) e := by
  simp [slots]

theorem slots_ne_nil {p : α → Nat} {l : List α} (hl : l ≠ []) (hp : ∀ e ∈ l, 1 ≤ p e) :
    slots p l ≠ [] := by
  obtain ⟨e, l, rfl⟩ := List.exists_cons_of_ne_nil hl
  have he : 1 ≤ p e := hp e List.mem_cons_self
  rw [slots_cons]
  intro h
  have hlen := congrArg List.length (List.append_eq_nil_iff.mp h).1
  rw [List.length_replicate, List.length_nil] at hlen
  omega

/-- The first `n` elements of the infinite repetition of `slots p l`. -/
def roundRobin (p : α → Nat) (l : List α) (n : Nat) : List α :=
  if h : slots p l ≠ [] then (cycle (slots p l) h).take n else []

theorem roundRobin_eq {p : α → Nat} {l : List α} (h : slots p l ≠ []) (n : Nat) :
    roundRobin p l n = (cycle (slots p l) h).take n := dif_pos h

/-- A stream that starts with `l` and then goes on as itself is determined by `l`. -/
theorem eq_of_appendStream {l : List α} (hl : l ≠ []) {s t : Stream' α} (hs : s = l ++ₛ s)
    (ht : t = l ++ₛ t) : s = t := by
  have hpos : 0 < l.length := List.length_pos_iff.mpr hl
  apply Stream'.ext
  intro n
  induction n using Nat.strong_induction_on with
  | _ n ih =>
    rw [hs, ht]
    rcases Nat.lt_or_ge n l.length with hn | hn
    · rw [get_append_left n l s hn, get_append_left n l t hn]
    · obtain ⟨m, rfl⟩ := Nat.exists_eq_add_of_le hn
      rw [get_append_right, get_append_right]
      exact ih m (by omega)

/-- A cycle may be entered at any point. -/
theorem cycle_append {a b : List α} (h : a ++ b ≠ []) (h' : b ++ a ≠ []) :
    cycle (a ++ b) h = a ++ₛ cycle (b ++ a) h' := by
  apply eq_of_appendStream h (cycle_eq (a ++ b) h)
  conv_lhs => rw [cycle_eq (b ++ a) h']
  rw [append_append_stream, append_append_stream]

/-- What is to come: `c` more turns of `e`, then the rounds of `q` and `e`. -/
def turnStream (p : α → Nat) (e : α) (q : List α) (c : Nat) (h : slots p (q ++ [e]) ≠ []) :
    Stream' α :=
  List.replicate c e ++ₛ cycle (slots p (q ++ [e])) h

theorem turnStream_succ (p : α → Nat) (e : α) (q : List α) (c : Nat)
    (h : slots p (q ++ [e]) ≠ []) :
    turnStream p e q (c + 1) h = Stream'.cons e (turnStream p e q c h) := by
  rw [turnStream, List.replicate_succ, cons_append_stream, turnStream]

/-- A cycle starts with the turns of its first element. -/
theorem cycle_slots {p : α → Nat} {f : α} {l : List α} (hf : 1 ≤ p f)
    (h : slots p (f :: l) ≠ []) (h' : slots p (l ++ [f]) ≠ []) :
    cycle (slots p (f :: l)) h = Stream'.cons f (turnStream p f l (p f - 1) h') := by
  have hne : slots p l ++ List.replicate (p f) f ≠ [] := by
    rw [← slots_concat]
    exact h'
  have hcyc : cycle (slots p (f :: l)) h =
      List.replicate (p f) f ++ₛ cycle (slots p l ++ List.replicate (p f) f) hne :=
    cycle_append h hne
  have hrest : cycle (slots p l ++ List.replicate (p f) f) hne = cycle (slots p (l ++ [f])) h' := by
    congr 1
    exact (slots_concat p l f).symm
  obtain ⟨n, hn⟩ := Nat.exists_eq_add_of_le' hf
  rw [hcyc, hrest, hn, List.replicate_succ, cons_append_stream, turnStream, Nat.add_sub_cancel]

/-- After its last turn `e` goes to the end, and the next one has a full slice. -/
theorem turnStream_zero {p : α → Nat} {e f : α} {q l : List α} (hl : q ++ [e] = f :: l)
    (hf : 1 ≤ p f) (h : slots p (q ++ [e]) ≠ []) (h' : slots p (l ++ [f]) ≠ []) :
    turnStream p e q 0 h = Stream'.cons f (turnStream p f l (p f - 1) h') := by
  have hcyc : cycle (slots p (q ++ [e])) h = cycle (slots p (f :: l)) (hl ▸ h) := by
    congr 1
    rw [hl]
  rw [turnStream, List.replicate_zero, nil_append_stream, hcyc]
  exact cycle_slots hf _ h'

/-- The first turn of a cycle, and what comes after it. -/
theorem roundRobin_succ {p : α → Nat} {f : α} {l : List α} (hf : 1 ≤ p f)
    (h' : slots p (l ++ [f]) ≠ []) (n : Nat) :
    roundRobin p (f :: l) (n + 1) = f :: (turnStream p f l (p f - 1) h').take n := by
  have h : slots p (f :: l) ≠ [] := by
    intro hnil
    apply h'
    rw [slots_cons, List.append_eq_nil_iff] at hnil
    rw [slots_concat, hnil.1, hnil.2, List.append_nil]
  rw [roundRobin_eq h, cycle_slots hf h h', take_succ_cons]

end Mos.Lib
