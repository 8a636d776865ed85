import Mathlib.Data.List.Rotate
import Mos.Lib.Cycle
import Mos.Lib.Except
import Mos.Kern.Env

/-!
# MOS on RISC-V — round-robin slices

What `schedule` does when nothing else happens. `Turn k p q c` says that the
head of the queue `q` has just been resumed with `c` slices of its priority
left; `Turn.keep` and `Turn.next` are the two ways a call can go, and
`schedule_roundRobin` puts them together: a run of timer ticks resumes the envs
in the order of the infinite repetition of the queue, each as often as its
priority says, and a yield at any point goes to the next env with a full slice.
-/

namespace Mos.Kern

open Mos.Lib

/-- Consecutive timer ticks; the list names the env each of them resumes. -/
def schedules (k : Kernel) : List Trapframe → Result (List (Option Nat) × Kernel)
  | [] => .ok ([], k)
  | tf :: tfs => do
    let k ← schedule { k with tf := tf } false
    let (es, k') ← schedules k tfs
    return (k.curenv :: es, k')

theorem schedules_cons {k k₁ k' : Kernel} {tf : Trapframe} {tfs : List Trapframe}
    {es : List (Option Nat)} (h : schedule { k with tf := tf } false = .ok k₁)
    (hrest : schedules k₁ tfs = .ok (es, k')) :
    schedules k (tf :: tfs) = .ok (k₁.curenv :: es, k') := by
  unfold schedules
  rw [bind_eq_ok]
  refine ⟨k₁, h, ?_⟩
  rw [bind_eq_ok]
  exact ⟨(es, k'), hrest, rfl⟩

-- ---------------------------------------------------------------------------
-- The disk
-- ---------------------------------------------------------------------------

/-- The driver has seen every completion. -/
def Drained (d : Vring) : Prop := (d.used.idx + 2 ^ 16 - d.usedIdx) % 2 ^ 16 = 0

theorem Drained.intr {d : Vring} (h : Drained d) :
    virtioDiskIntr d = .ok (intrAck d) ∧ Drained (intrAck d) := by
  constructor
  · unfold virtioDiskIntr
    rw [h]
    rfl
  · unfold intrAck
    split_ifs
    · exact h
    · exact h

theorem freeChainLoop_rings {n : Nat} {d d' : Vring} {i : Nat} (h : freeChainLoop n d i = .ok d') :
    d'.used = d.used ∧ d'.usedIdx = d.usedIdx := by
  induction n generalizing d i with
  | zero => cases h
  | succ n ih =>
    obtain ⟨d₁, hd₁, hrest⟩ := bind_eq_ok.mp h
    have hsame : d₁.used = d.used ∧ d₁.usedIdx = d.usedIdx := by
      unfold freeDesc at hd₁
      split_ifs at hd₁
      obtain rfl := Except.ok.inj hd₁
      exact ⟨rfl, rfl⟩
    split_ifs at hrest
    · obtain ⟨hu, hi⟩ := ih hrest
      exact ⟨hu.trans hsame.1, hi.trans hsame.2⟩
    · obtain rfl := Except.ok.inj hrest
      exact hsame

theorem intrRounds_rings {n : Nat} {d d' : Vring} (h : intrRounds n d = .ok d') :
    d'.used = d.used ∧ (0 < n → d'.usedIdx = (d.usedIdx + n) % 2 ^ 16) ∧
      (n = 0 → d'.usedIdx = d.usedIdx) := by
  induction n generalizing d with
  | zero =>
    obtain rfl := Except.ok.inj h
    exact ⟨rfl, fun h0 => absurd h0 (Nat.lt_irrefl 0), fun _ => rfl⟩
  | succ n ih =>
    obtain ⟨d₁, hd₁, hrest⟩ := bind_eq_ok.mp h
    obtain ⟨d₀, hd₀, heq⟩ := bind_eq_ok.mp hd₁
    obtain rfl := Except.ok.inj heq
    obtain ⟨hu₀, hi₀⟩ := freeChainLoop_rings hd₀
    obtain ⟨hu, hpos, hzero⟩ := ih hrest
    refine ⟨hu.trans hu₀, fun _ => ?_, fun h0 => absurd h0 (Nat.succ_ne_zero n)⟩
    rcases Nat.eq_zero_or_pos n with rfl | hn
    · rw [hzero rfl, ← hi₀]
    · rw [hpos hn]
      show ((d₀.usedIdx + 1) % 2 ^ 16 + n) % 2 ^ 16 = _
      rw [hi₀]
      omega

/-- A call of `virtio_disk_intr` that returns leaves nothing to see. -/
theorem drained_of_intr {d d' : Vring} (h : virtioDiskIntr d = .ok d') : Drained d' := by
  obtain ⟨hu, hpos, hzero⟩ := intrRounds_rings h
  have hack : (intrAck d).used = d.used ∧ (intrAck d).usedIdx = d.usedIdx := by
    unfold intrAck
    split_ifs
    · exact ⟨rfl, rfl⟩
    · exact ⟨rfl, rfl⟩
  rw [hack.1] at hu
  rw [hack.2] at hpos hzero
  unfold Drained
  rw [hu]
  rcases Nat.eq_zero_or_pos ((d.used.idx + 2 ^ 16 - d.usedIdx) % 2 ^ 16) with h0 | hn
  · rw [hzero h0]
    exact h0
  · rw [hpos hn]
    omega

-- ---------------------------------------------------------------------------
-- The two ways of a call
-- ---------------------------------------------------------------------------

/-- What `schedule` reads besides the queue and the counter. -/
structure SameTurns (k k' : Kernel) : Prop where
  status : ∀ e, (k'.envs e).status = (k.envs e).status
  pri : ∀ e, (k'.envs e).pri = (k.envs e).pri

/-- `env_run` of a runnable env makes it `curenv` and leaves the queue alone. -/
theorem envRun_turn {k : Kernel} {e : Nat} (he : (k.envs e).status = .runnable) :
    ∃ k', envRun k e = .ok k' ∧ SameTurns k k' ∧ k'.curenv = some e ∧
      k'.envSchedList = k.envSchedList ∧ k'.schedCount = k.schedCount ∧ k'.disk = k.disk := by
  refine ⟨resume (saveContext k) e, if_pos he, ?_, rfl, ?_⟩
  · have hsave : SameTurns k (saveContext k) := by
      unfold saveContext
      cases k.curenv with
      | none => exact ⟨fun _ => rfl, fun _ => rfl⟩
      | some c =>
        constructor
        · intro x
          by_cases hx : x = c
          · subst hx
            simp
          · simp [Kernel.setEnv_of_ne k c _ hx]
        · intro x
          by_cases hx : x = c
          · subst hx
            simp
          · simp [Kernel.setEnv_of_ne k c _ hx]
    constructor
    · intro x
      rw [← hsave.status]
      by_cases hx : x = e
      · subst hx
        simp [resume, Kernel.setEnv]
      · simp [resume, Kernel.setEnv, Function.update_of_ne hx]
    · intro x
      rw [← hsave.pri]
      by_cases hx : x = e
      · subst hx
        simp [resume, Kernel.setEnv]
      · simp [resume, Kernel.setEnv, Function.update_of_ne hx]
  · unfold resume saveContext
    cases k.curenv with
    | none => exact ⟨rfl, rfl, rfl⟩
    | some c => exact ⟨rfl, rfl, rfl⟩

/-- The head of `q` was resumed last and has `c` slices left; `p` are the
priorities. -/
structure Turn (k : Kernel) (p : Nat → Nat) (q : List Nat) (c : Nat) : Prop where
  rep : k.envSchedList.Rep q
  run : ∀ e ∈ q, (k.envs e).status = .runnable
  pri : ∀ e ∈ q, (k.envs e).pri = p e
  cur : k.curenv = q.head?
  count : k.schedCount = toInt c
  lt : c < 2 ^ 32
  disk : Drained k.disk

theorem toInt_eq_zero_iff {c : Nat} (hc : c < 2 ^ 32) : toInt c = 0 ↔ c = 0 := by
  unfold toInt
  rw [Int.bmod_def]
  split_ifs <;> omega

theorem countDown_toInt (c : Nat) : countDown (toInt ((c + 1 : Nat) : Int)) = toInt c := by
  unfold countDown toInt
  rw [Int.bmod_sub_bmod]
  congr 1
  omega

/-- The counter after the first turn of a slice. -/
theorem countDown_slices {env : Env} {n : Nat} (hpri : env.pri = n) (hn : 1 ≤ n) :
    countDown (slices env) = toInt ((n - 1 : Nat) : Int) := by
  obtain ⟨m, rfl⟩ := Nat.exists_eq_add_of_le' hn
  unfold slices
  rw [hpri, countDown_toInt, Nat.add_sub_cancel]

/-- A new slice of the env `f` at the head of the queue. -/
theorem envRun_slice {k : Kernel} {p : Nat → Nat} {f : Nat} {l : List Nat}
    (hrep : k.envSchedList.Rep (f :: l)) (hrun : ∀ e ∈ f :: l, (k.envs e).status = .runnable)
    (hpri : ∀ e ∈ f :: l, (k.envs e).pri = p e) (hf : 1 ≤ p f) (hf' : p f < 2 ^ 32)
    (hdisk : Drained k.disk) :
    ∃ k', envRun { k with schedCount := countDown (slices (k.envs f)) } f = .ok k' ∧
      Turn k' p (f :: l) (p f - 1) := by
  have hfrun := hrun f List.mem_cons_self
  obtain ⟨k', hk', hsame, hcur, hq, hcount, hd⟩ :=
    envRun_turn (k := { k with schedCount := countDown (slices (k.envs f)) }) (e := f) hfrun
  refine ⟨k', hk', ?_, ?_, ?_, hcur, ?_, Nat.lt_of_le_of_lt (Nat.sub_le _ _) hf', ?_⟩
  · rw [hq]
    exact hrep
  · intro e he
    rw [hsame.status]
    exact hrun e he
  · intro e he
    rw [hsame.pri]
    exact hpri e he
  · have hs := countDown_slices (hpri f List.mem_cons_self) hf
    rw [hcount, ← hs]
  · rw [hd]
    exact hdisk

namespace Turn

variable {k : Kernel} {p : Nat → Nat} {e : Nat} {q : List Nat} {c : Nat}

/-- The slice goes on. -/
theorem keep (h : Turn k p (e :: q) (c + 1)) (tf : Trapframe) :
    ∃ k', schedule { k with tf := tf } false = .ok k' ∧ Turn k' p (e :: q) c := by
  obtain ⟨hintr, hdrained⟩ := h.disk.intr
  have hcur : k.curenv = some e := h.cur
  have hrun : (k.envs e).status = .runnable := h.run e List.mem_cons_self
  have hcount : k.schedCount ≠ 0 := by
    rw [h.count, Ne, toInt_eq_zero_iff h.lt]
    omega
  obtain ⟨k', hk', hsame, hcur', hq, hcount', hd⟩ := envRun_turn (e := e)
    (k := { k with tf := tf, disk := intrAck k.disk, schedCount := countDown k.schedCount }) hrun
  refine ⟨k', ?_, ?_⟩
  · unfold schedule
    rw [bind_eq_ok]
    refine ⟨intrAck k.disk, hintr, ?_⟩
    have hkeep : keepRunning { k with tf := tf, disk := intrAck k.disk } false = some e := by
      simp [keepRunning, hcur, hcount, hrun]
    simp only [hkeep]
    exact hk'
  · refine ⟨?_, ?_, ?_, hcur', ?_, Nat.lt_of_succ_lt h.lt, ?_⟩
    · rw [hq]
      exact h.rep
    · intro x hx
      rw [hsame.status]
      exact h.run x hx
    · intro x hx
      rw [hsame.pri]
      exact h.pri x hx
    · rw [hcount']
      show countDown k.schedCount = _
      rw [h.count]
      exact countDown_toInt c
    · rw [hd]
      exact hdrained

/-- The slice is over, or given up: `e` goes to the tail, and the env `f` then
at the head gets a full slice. -/
theorem next {f : Nat} {l : List Nat} (h : Turn k p (e :: q) c) (tf : Trapframe) {yield : Bool}
    (hend : c = 0 ∨ yield = true) (hl : q ++ [e] = f :: l) (hf : 1 ≤ p f) (hf' : p f < 2 ^ 32) :
    ∃ k', schedule { k with tf := tf } yield = .ok k' ∧ Turn k' p (f :: l) (p f - 1) := by
  obtain ⟨hintr, hdrained⟩ := h.disk.intr
  have hcur : k.curenv = some e := h.cur
  have hrun : (k.envs e).status = .runnable := h.run e List.mem_cons_self
  have hmem : ∀ x ∈ f :: l, x ∈ e :: q := by
    intro x hx
    rw [← hl, List.mem_append, List.mem_singleton] at hx
    exact List.mem_cons.mpr hx.symm
  have hnodup := List.nodup_cons.mp h.rep.nodup
  obtain ⟨q₁, hq₁, hrep₁⟩ := h.rep.remove List.mem_cons_self
  rw [List.erase_cons_head] at hrep₁
  obtain ⟨q₂, hq₂, hrep₂⟩ := hrep₁.insertTail hnodup.1
  rw [hl] at hrep₂
  -- the kernel after the env that ran went to the tail
  let k₁ : Kernel := { k with tf := tf, disk := intrAck k.disk }
  let k₂ := (k₁.withQueue .remove e q₁).withQueue .insert e q₂
  have hkeep : keepRunning k₁ yield = none := by
    have hstop : yield = true ∨ k.schedCount = 0 ∨ (k.envs e).status ≠ .runnable := by
      rcases hend with rfl | hy
      · exact Or.inr (Or.inl (by rw [h.count]; rfl))
      · exact Or.inl hy
    simp only [keepRunning, k₁, hcur]
    exact if_pos hstop
  have hreq : requeue k₁ = .ok k₂ := by
    have hrem : tailqRemove k₁ e = .ok (k₁.withQueue .remove e q₁) := by
      simp [tailqRemove, k₁, hq₁]
    have hins : tailqInsertTail (k₁.withQueue .remove e q₁) e = .ok k₂ := by
      simp [tailqInsertTail, k₂, Kernel.withQueue, hq₂]
    have hc : k₁.curenv = some e := hcur
    have hr : (k₁.envs e).status = .runnable := hrun
    unfold requeue
    rw [hc]
    simp only [hr, if_true, hrem]
    exact hins
  obtain ⟨k', hk', hturn⟩ := envRun_slice (k := k₂) (p := p) hrep₂
    (fun x hx => h.run x (hmem x hx)) (fun x hx => h.pri x (hmem x hx)) hf hf' hdrained
  refine ⟨k', ?_, hturn⟩
  have hfirst : k₂.envSchedList.first = some f := hrep₂.first_eq
  unfold schedule
  rw [bind_eq_ok]
  refine ⟨intrAck k.disk, hintr, ?_⟩
  have hk₁ : ({ k with tf := tf, disk := intrAck k.disk } : Kernel) = k₁ := rfl
  simp only [hk₁, hkeep]
  rw [bind_eq_ok]
  refine ⟨k₂, hreq, ?_⟩
  rw [hfirst]
  exact hk'

/-- A run of ticks follows the stream of turns, and its queue is a rotation. -/
theorem ticks (h : Turn k p (e :: q) c) (hp : ∀ x ∈ e :: q, 1 ≤ p x ∧ p x < 2 ^ 32)
    (hne : Lib.slots p (q ++ [e]) ≠ []) (tfs : List Trapframe) :
    ∃ k' e' q' c', schedules k tfs =
        .ok (((turnStream p e q c hne).take tfs.length).map some, k') ∧
      Turn k' p (e' :: q') c' ∧ ∃ j, e' :: q' = (e :: q).rotate j := by
  induction tfs generalizing k e q c with
  | nil => exact ⟨k, e, q, c, rfl, h, 0, (List.rotate_zero _).symm⟩
  | cons tf tfs ih =>
    cases c with
    | succ c =>
      obtain ⟨k₁, hk₁, h₁⟩ := h.keep tf
      obtain ⟨k', e', q', c', hrun, hturn, hrot⟩ := ih h₁ hp hne
      refine ⟨k', e', q', c', ?_, hturn, hrot⟩
      have hcur : k₁.curenv = some e := h₁.cur
      rw [turnStream_succ, List.length_cons, Stream'.take_succ_cons, List.map_cons, ← hcur]
      exact schedules_cons hk₁ hrun
    | zero =>
      -- the queue turns by one
      obtain ⟨f, l, hl⟩ := List.exists_cons_of_ne_nil (List.append_ne_nil_of_right_ne_nil q
        (List.cons_ne_nil e []))
      have hmem : ∀ x ∈ f :: l, x ∈ e :: q := by
        intro x hx
        rw [← hl, List.mem_append, List.mem_singleton] at hx
        exact List.mem_cons.mpr hx.symm
      have hpf := hp f (hmem f List.mem_cons_self)
      obtain ⟨k₁, hk₁, h₁⟩ := h.next tf (Or.inl rfl) hl hpf.1 hpf.2
      have hne' : Lib.slots p (l ++ [f]) ≠ [] := by
        refine slots_ne_nil (List.append_ne_nil_of_right_ne_nil l (List.cons_ne_nil f [])) ?_
        intro x hx
        rw [List.mem_append, List.mem_singleton] at hx
        exact (hp x (hmem x (List.mem_cons.mpr hx.symm))).1
      obtain ⟨k', e', q', c', hrun, hturn, j, hj⟩ := ih h₁ (fun x hx => hp x (hmem x hx)) hne'
      refine ⟨k', e', q', c', ?_, hturn, j + 1, ?_⟩
      · have hcur : k₁.curenv = some f := h₁.cur
        rw [turnStream_zero hl hpf.1 hne hne', List.length_cons, Stream'.take_succ_cons,
          List.map_cons, ← hcur]
        exact schedules_cons hk₁ hrun
      · rw [hj, List.rotate_cons_succ, hl]

end Turn

-- ---------------------------------------------------------------------------
-- The run
-- ---------------------------------------------------------------------------

/-- The first call finds no `curenv` and takes the head of the queue. -/
theorem schedule_first {k : Kernel} {p : Nat → Nat} {f : Nat} {l : List Nat}
    (hrep : k.envSchedList.Rep (f :: l)) (hrun : ∀ e ∈ f :: l, (k.envs e).status = .runnable)
    (hpri : ∀ e ∈ f :: l, (k.envs e).pri = p e) (hf : 1 ≤ p f) (hf' : p f < 2 ^ 32)
    (hcur : k.curenv = none) {disk : Vring} (hdisk : virtioDiskIntr k.disk = .ok disk)
    (tf : Trapframe) (yield : Bool) :
    ∃ k', schedule { k with tf := tf } yield = .ok k' ∧ Turn k' p (f :: l) (p f - 1) := by
  obtain ⟨k', hk', hturn⟩ := envRun_slice (k := { k with tf := tf, disk := disk }) (p := p) hrep hrun
    hpri hf hf' (drained_of_intr hdisk)
  refine ⟨k', ?_, hturn⟩
  have hfirst : k.envSchedList.first = some f := hrep.first_eq
  unfold schedule
  rw [bind_eq_ok]
  refine ⟨disk, hdisk, ?_⟩
  have hkeep : keepRunning { k with tf := tf, disk := disk } yield = none := by
    simp [keepRunning, hcur]
  have hreq : requeue { k with tf := tf, disk := disk } = .ok { k with tf := tf, disk := disk } := by
    simp only [requeue, hcur]
    rfl
  simp only [hkeep]
  rw [bind_eq_ok]
  refine ⟨_, hreq, ?_⟩
  simp only [hfirst]
  exact hk'

/-- What a yield must do on the queue `l` with priorities `p`, when it takes the
kernel from `k` to `k'`: it goes to the env next in queue order, which is not
`curenv` unless that is alone, and that env starts a full slice. -/
def YieldsTo (p : Nat → Nat) (l : List Nat) (k k' : Kernel) : Prop :=
  ∃ j, k'.curenv = l[j % l.length]? ∧ (k.curenv = none → j = 0) ∧
    (∀ i < l.length, k.curenv = l[i]? → j = i + 1) ∧ (k'.curenv = k.curenv → l.length = 1) ∧
    ∀ tfs, ∃ es k'', schedules k' tfs = .ok (es, k'') ∧
      k'.curenv :: es = (roundRobin p (l.rotate j) (tfs.length + 1)).map some

theorem head?_rotate_mod {l : List Nat} (hl : l ≠ []) (j : Nat) :
    (l.rotate j).head? = l[j % l.length]? := by
  rw [← List.rotate_mod]
  exact List.head?_rotate (Nat.mod_lt j (List.length_pos_iff.mpr hl))

/-- From a fresh slice on, the ticks follow the infinite repetition. -/
theorem Turn.slices {k : Kernel} {p : Nat → Nat} {f : Nat} {l : List Nat}
    (h : Turn k p (f :: l) (p f - 1)) (hp : ∀ x ∈ f :: l, 1 ≤ p x ∧ p x < 2 ^ 32)
    (tfs : List Trapframe) :
    ∃ es k' e' q' c', schedules k tfs = .ok (es, k') ∧
      k.curenv :: es = (roundRobin p (f :: l) (tfs.length + 1)).map some ∧
      Turn k' p (e' :: q') c' ∧ ∃ j, e' :: q' = (f :: l).rotate j := by
  have hne : Lib.slots p (l ++ [f]) ≠ [] := by
    refine slots_ne_nil (List.append_ne_nil_of_right_ne_nil l (List.cons_ne_nil f [])) ?_
    intro x hx
    rw [List.mem_append, List.mem_singleton] at hx
    exact (hp x (List.mem_cons.mpr hx.symm)).1
  obtain ⟨k', e', q', c', hrun, hturn, hrot⟩ := h.ticks hp hne tfs
  refine ⟨_, k', e', q', c', hrun, ?_, hturn, hrot⟩
  have hcur : k.curenv = some f := h.cur
  rw [roundRobin_succ (hp f List.mem_cons_self).1 hne, List.map_cons, hcur]

/-- A yield of the env that has its turn. -/
theorem Turn.yields {k : Kernel} {p : Nat → Nat} {e c j : Nat} {q l : List Nat}
    (h : Turn k p (e :: q) c) (hl : l.Nodup) (hp : ∀ x ∈ l, 1 ≤ p x ∧ p x < 2 ^ 32)
    (hj : e :: q = l.rotate j) (tf : Trapframe) :
    ∃ k', schedule { k with tf := tf } true = .ok k' ∧ YieldsTo p l k k' := by
  have hlne : l ≠ [] := by
    rintro rfl
    simp at hj
  have hlen : j % l.length < l.length := Nat.mod_lt j (List.length_pos_iff.mpr hlne)
  have hcur : k.curenv = l[j % l.length]? := by
    rw [h.cur, hj, head?_rotate_mod hlne]
  obtain ⟨f, r, hr⟩ := List.exists_cons_of_ne_nil (List.append_ne_nil_of_right_ne_nil q
    (List.cons_ne_nil e []))
  have hrot : f :: r = l.rotate (j % l.length + 1) := by
    rw [← List.rotate_rotate, List.rotate_mod, ← hj, List.rotate_cons_succ, List.rotate_zero, hr]
  have hpr : ∀ x ∈ f :: r, 1 ≤ p x ∧ p x < 2 ^ 32 := by
    intro x hx
    rw [hrot, List.mem_rotate] at hx
    exact hp x hx
  have hpf := hpr f List.mem_cons_self
  obtain ⟨k', hk', hturn⟩ := h.next tf (Or.inr rfl) hr hpf.1 hpf.2
  have hcur' : k'.curenv = l[(j % l.length + 1) % l.length]? := by
    rw [hturn.cur, hrot, head?_rotate_mod hlne]
  refine ⟨k', hk', j % l.length + 1, hcur', ?_, ?_, ?_, ?_⟩
  · intro hnone
    rw [hcur, List.getElem?_eq_getElem hlen] at hnone
    cases hnone
  · intro i hi hii
    rw [hcur] at hii
    have hij := (List.getElem?_inj hlen hl).mp hii
    omega
  · intro hsame
    rw [hcur, hcur'] at hsame
    have heq := (List.getElem?_inj (Nat.mod_lt _ (by omega)) hl).mp hsame
    by_contra hone
    rcases Nat.lt_or_ge (j % l.length + 1) l.length with hlt | hge
    · rw [Nat.mod_eq_of_lt hlt] at heq
      omega
    · have hfull : j % l.length + 1 = l.length := by omega
      rw [hfull, Nat.mod_self] at heq
      omega
  · intro tfs
    obtain ⟨es, k'', _, _, _, hes, hseq, -, -⟩ := hturn.slices hpr tfs
    exact ⟨es, k'', hes, by rw [← hrot]; exact hseq⟩

/-- **Round-robin slices.** With `curenv` null and the envs of a non-empty queue
`l` runnable, any number of consecutive timer ticks resumes the first elements
of the infinite repetition of `l`, each env as often as its priority says; and
a yield at any point of such a run goes to the env next in queue order. -/
theorem schedule_roundRobin (k : Kernel) (l : List Nat) (hq : k.envSchedList.Rep l) (hl : l ≠ [])
    (hrun : ∀ e ∈ l, (k.envs e).status = .runnable)
    (hpri : ∀ e ∈ l, 1 ≤ (k.envs e).pri ∧ (k.envs e).pri < 2 ^ 32) (hcur : k.curenv = none)
    (hdisk : ∃ disk, virtioDiskIntr k.disk = .ok disk) (tfs : List Trapframe) :
    ∃ k', schedules k tfs = .ok ((roundRobin (fun e => (k.envs e).pri) l tfs.length).map some, k') ∧
      ∀ tf, ∃ k'', schedule { k' with tf := tf } true = .ok k'' ∧
        YieldsTo (fun e => (k.envs e).pri) l k' k'' := by
  obtain ⟨disk, hdisk⟩ := hdisk
  obtain ⟨f, r, rfl⟩ := List.exists_cons_of_ne_nil hl
  obtain ⟨hf, hf'⟩ := hpri f List.mem_cons_self
  cases tfs with
  | nil =>
    refine ⟨k, ?_, fun tf => ?_⟩
    · rw [roundRobin_eq (slots_ne_nil hl fun e he => (hpri e he).1)]
      rfl
    · obtain ⟨k', hk', hturn⟩ := schedule_first hq hrun (p := fun e => (k.envs e).pri)
        (fun _ _ => rfl) hf hf' hcur hdisk tf true
      have hcur' : k'.curenv = some f := hturn.cur
      refine ⟨k', hk', 0, ?_, fun _ => rfl, ?_, ?_, fun tfs => ?_⟩
      · rw [hcur', Nat.zero_mod]
        rfl
      · intro i hi hii
        rw [hcur, List.getElem?_eq_getElem hi] at hii
        cases hii
      · intro hsame
        rw [hcur, hcur'] at hsame
        cases hsame
      · obtain ⟨es, k'', _, _, _, hes, hseq, -, -⟩ := hturn.slices hpri tfs
        refine ⟨es, k'', hes, ?_⟩
        rw [List.rotate_zero]
        exact hseq
  | cons tf tfs =>
    obtain ⟨k₁, hk₁, hturn⟩ := schedule_first hq hrun (p := fun e => (k.envs e).pri)
      (fun _ _ => rfl) hf hf' hcur hdisk tf false
    obtain ⟨es, k', e', q', c', hes, hseq, hturn', j, hj⟩ := hturn.slices hpri tfs
    refine ⟨k', ?_, fun tf' => hturn'.yields hq.nodup hpri hj tf'⟩
    rw [List.length_cons, ← hseq]
    exact schedules_cons hk₁ hes

/-- Two envs in the queue, with priorities 1 and 2. -/
def twoEnvs : Kernel :=
  { firstKernel ⟨fun _ => 0, [], fun _ _ => 0, []⟩ 0 (virtioDiskInit 0 fun _ => ⟨0, 0, 0⟩)
      (fun _ => 0) with
    envs := fun e => { zeroEnv with status := .runnable, pri := e + 1 }
    envSchedList :=
      ((TailQueue.init ⟨none, .null, fun _ => none, fun _ => .null⟩).insertHead 1).insertHead 0 }

theorem twoEnvs_rep : twoEnvs.envSchedList.Rep [0, 1] :=
  ((TailQueue.rep_init _).insertHead (by simp)).insertHead (by simp)

theorem schedule_roundRobin_twoEnvs :
    ∃ k', schedules twoEnvs (List.replicate 4 zeroTrapframe) =
      .ok ([some 0, some 1, some 1, some 0], k') := by
  have hpri : ∀ e ∈ [0, 1], 1 ≤ (twoEnvs.envs e).pri ∧ (twoEnvs.envs e).pri < 2 ^ 32 := by
    decide
  obtain ⟨k', hk', -⟩ := schedule_roundRobin twoEnvs [0, 1] twoEnvs_rep (by simp)
    (fun _ _ => rfl) hpri rfl ⟨_, rfl⟩ (List.replicate 4 zeroTrapframe)
  exact ⟨k', hk'⟩

end Mos.Kern
