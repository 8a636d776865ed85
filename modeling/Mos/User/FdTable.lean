import Mos.User.FileIo

/-!
# MOS on RISC-V — the table of descriptors

A descriptor is the number of a page of the table; it is in use if the page is mapped, as
the process sees in the window of its page tables.

Main results:

* `fdTable_iff` — `fd_alloc` and `fd_lookup` do what they should exactly if the last
  descriptor is not the only free one, and no page is mapped where a negative number leads;
* `fdLookup_window` — the look-up of `FileIo` is this one.
-/

namespace Mos.User

open Mos.Lib Mos.Kern
open Mos.Fs (E_MAX_OPEN)

/-- The words of `vpd` and `vpt`. -/
structure PageView where
  vpd : Nat → Nat
  vpt : Nat → Nat

namespace PageView

variable (v : PageView)

/-- A page is mapped at `va`. -/
def mapped (va : Nat) : Bool := testFlag (v.vpd (PDX va)) PTE_V && testFlag (v.vpt (VPN va)) PTE_V

/-- The two tests in the loop of `fd_alloc`. -/
def fdFree (va : Nat) : Bool :=
  if testFlag (v.vpd (va / PDMAP)) PTE_V = false then true
  else if testFlag (v.vpt (va / BY2PG)) PTE_V = false then true
  else false

/-- The loop of `fd_alloc`, with `n` rounds to go. -/
def fdAllocFrom : Nat → Nat → Except Int Nat
  | 0, _ => .error (-E_MAX_OPEN)
  | n + 1, fdno =>
    let va := INDEX2FD fdno
    if v.fdFree va then .ok va else fdAllocFrom n (fdno + 1)

def fdAlloc : Except Int Nat := v.fdAllocFrom (MAXFD - 1).toNat 0

def fdLookup (fdnum : Int) : Except Int Nat :=
  if MAXFD ≤ fdnum then .error (-E_INVAL)
  else
    let va := INDEX2FD fdnum
    if v.mapped va then .ok va else .error (-E_INVAL)

/-- Descriptor `i` is in use. -/
def used (i : Int) : Bool := v.mapped (INDEX2FD i)

-- ---------------------------------------------------------------------------
-- What they should do
-- ---------------------------------------------------------------------------

/-- `fd_alloc` gives the smallest number that is not in use, and fails only if there is none. -/
def FdAllocRight : Prop :=
  (∀ fd, v.fdAlloc = .ok fd ↔
    ∃ i : Nat, (i : Int) < MAXFD ∧ v.used i = false ∧ (∀ j : Nat, j < i → v.used j = true) ∧ fd = INDEX2FD i) ∧
  (∀ r, v.fdAlloc = .error r ↔ r = -E_MAX_OPEN ∧ ∀ i : Nat, (i : Int) < MAXFD → v.used i = true)

/-- `fd_lookup` finds the descriptors that are in use, and nothing else. -/
def FdLookupRight (n : Int) : Prop :=
  (∀ fd, v.fdLookup n = .ok fd ↔ 0 ≤ n ∧ n < MAXFD ∧ v.used n = true ∧ fd = INDEX2FD n) ∧
  (∀ r, v.fdLookup n = .error r ↔ r = -E_INVAL ∧ ¬ (0 ≤ n ∧ n < MAXFD ∧ v.used n = true))

/-- Of all descriptors, only the last is free. -/
def OnlyLastFree : Prop := (∀ i : Nat, (i : Int) < MAXFD - 1 → v.used i = true) ∧ v.used (MAXFD - 1) = false

end PageView

variable {v : PageView} {n : Int}

-- ---------------------------------------------------------------------------
-- fd_alloc
-- ---------------------------------------------------------------------------

theorem INDEX2FD_lt_two_pow (i : Int) : INDEX2FD i < 2 ^ 32 := by
  unfold INDEX2FD toWord
  omega

theorem fdFree_eq {va : Nat} (hva : va < 2 ^ 32) : v.fdFree va = !v.mapped va := by
  have hpd : PDX va = va / PDMAP := by
    rw [PDX_eq]
    simp only [PDMAP]
    omega
  have hpt : VPN va = va / BY2PG := PPN_eq va
  unfold PageView.fdFree PageView.mapped
  rw [hpd, hpt]
  cases testFlag (v.vpd (va / PDMAP)) PTE_V <;> cases testFlag (v.vpt (va / BY2PG)) PTE_V <;> rfl

theorem fdFree_INDEX2FD (i : Nat) : v.fdFree (INDEX2FD i) = !v.used i := fdFree_eq (INDEX2FD_lt_two_pow _)

theorem fdAllocFrom_succ (n k : Nat) :
    v.fdAllocFrom (n + 1) k = if v.used k = true then v.fdAllocFrom n (k + 1) else .ok (INDEX2FD k) := by
  show (if v.fdFree (INDEX2FD k) then _ else _) = _
  rw [fdFree_INDEX2FD]
  cases v.used k <;> rfl

/-- Where the loop of `fd_alloc` ends. -/
theorem fdAllocFrom_cases (n k : Nat) :
    (∃ i : Nat, k ≤ i ∧ i < k + n ∧ v.used i = false ∧ (∀ j : Nat, k ≤ j → j < i → v.used j = true) ∧
      v.fdAllocFrom n k = .ok (INDEX2FD i)) ∨
    ((∀ j : Nat, k ≤ j → j < k + n → v.used j = true) ∧ v.fdAllocFrom n k = .error (-E_MAX_OPEN)) := by
  induction n generalizing k with
  | zero => exact Or.inr ⟨fun j hk hj => absurd hj (by omega), rfl⟩
  | succ n ih =>
    rw [fdAllocFrom_succ]
    cases hk : v.used k with
    | false =>
      rw [if_neg nofun]
      exact Or.inl ⟨k, le_rfl, by omega, hk, fun j hkj hjk => absurd hjk (by omega), rfl⟩
    | true =>
      rw [if_pos rfl]
      have hfirst : ∀ {j : Nat}, k ≤ j → (k + 1 ≤ j → v.used j = true) → v.used j = true := fun hkj hrest => by
        rcases Nat.eq_or_lt_of_le hkj with rfl | hlt
        · exact hk
        · exact hrest hlt
      rcases ih (k + 1) with ⟨i, hki, hi, hfree, hbelow, heq⟩ | ⟨hall, heq⟩
      · exact Or.inl ⟨i, by omega, by omega, hfree,
          fun j hkj hji => hfirst hkj fun hlt => hbelow j hlt hji, heq⟩
      · exact Or.inr ⟨fun j hkj hj => hfirst hkj fun hlt => hall j hlt (by omega), heq⟩

theorem INDEX2FD_inj {i j : Nat} (hi : i < 32) (hj : j < 32) (h : INDEX2FD i = INDEX2FD j) : i = j := by
  have hnum := congrArg fd2num h
  rw [fd2num_INDEX2FD hi, fd2num_INDEX2FD hj] at hnum
  exact Int.ofNat_inj.mp hnum

theorem fdAllocRight_iff : v.FdAllocRight ↔ ¬ v.OnlyLastFree := by
  have hmax : (MAXFD - 1).toNat = 31 := rfl
  have hM : MAXFD = 32 := rfl
  rcases fdAllocFrom_cases (v := v) (MAXFD - 1).toNat 0 with ⟨i, -, hi, hfree, hbelow, heq⟩ | ⟨hall, heq⟩
  · -- a descriptor below the last one is free
    have heq : v.fdAlloc = .ok (INDEX2FD i) := heq
    refine iff_of_true ⟨fun fd => ?_, fun r => ?_⟩ fun hlast => ?_
    · rw [heq]
      constructor
      · intro h
        exact ⟨i, by omega, hfree, fun j hj => hbelow j (Nat.zero_le _) hj, (Except.ok.inj h).symm⟩
      · rintro ⟨i', hi', hfree', hbelow', rfl⟩
        have hle : ¬ i < i' := fun hlt => by
          rw [hbelow' i hlt] at hfree
          cases hfree
        have hge : ¬ i' < i := fun hlt => by
          rw [hbelow i' (Nat.zero_le _) hlt] at hfree'
          cases hfree'
        rw [show i = i' by omega]
    · rw [heq]
      refine iff_of_false nofun fun hr => ?_
      rw [hr.2 i (by omega)] at hfree
      cases hfree
    · rw [hlast.1 i (by omega)] at hfree
      cases hfree
  · have heq : v.fdAlloc = .error (-E_MAX_OPEN) := heq
    have hlow : ∀ i : Nat, (i : Int) < MAXFD - 1 → v.used i = true := fun i hi =>
      hall i (Nat.zero_le _) (by omega)
    cases hlast : v.used (MAXFD - 1) with
    | false =>
      refine iff_of_false (fun hright => ?_) (not_not_intro ⟨hlow, hlast⟩)
      have hused := ((hright.2 _).mp heq).2 31 (by decide)
      rw [show ((31 : Nat) : Int) = MAXFD - 1 from rfl, hlast] at hused
      cases hused
    | true =>
      have hevery : ∀ i : Nat, (i : Int) < MAXFD → v.used i = true := fun i hi => by
        rcases Int.lt_or_le i (MAXFD - 1) with hlt | hge
        · exact hlow i hlt
        · rw [show (i : Int) = MAXFD - 1 by omega]
          exact hlast
      refine iff_of_true ⟨fun fd => ?_, fun r => ?_⟩ fun hl => ?_
      · rw [heq]
        refine iff_of_false nofun ?_
        rintro ⟨i, hi, hfree, -⟩
        rw [hevery i hi] at hfree
        cases hfree
      · rw [heq]
        exact ⟨fun h => ⟨(Except.error.inj h).symm, hevery⟩, fun h => by rw [h.1]⟩
      · rw [hl.2] at hlast
        cases hlast

-- ---------------------------------------------------------------------------
-- fd_lookup
-- ---------------------------------------------------------------------------

theorem fdLookup_of_used (hn : n < MAXFD) (h : v.used n = true) : v.fdLookup n = .ok (INDEX2FD n) := by
  unfold PageView.fdLookup
  rw [if_neg (by omega)]
  exact if_pos h

theorem fdLookup_of_unused (h : ¬ (n < MAXFD ∧ v.used n = true)) : v.fdLookup n = .error (-E_INVAL) := by
  unfold PageView.fdLookup
  split_ifs with hn
  · rfl
  · exact if_neg fun hused => h ⟨by omega, hused⟩

/-- The code tests the upper bound only. -/
theorem fdLookupRight_iff : v.FdLookupRight n ↔ 0 ≤ n ∨ v.used n = false := by
  have hM : MAXFD = 32 := rfl
  by_cases hfound : n < MAXFD ∧ v.used n = true
  · have heq := fdLookup_of_used hfound.1 hfound.2
    by_cases hneg : 0 ≤ n
    · refine iff_of_true ⟨fun fd => ?_, fun r => ?_⟩ (Or.inl hneg)
      · rw [heq]
        exact ⟨fun h => ⟨hneg, hfound.1, hfound.2, (Except.ok.inj h).symm⟩, fun h => by rw [h.2.2.2]⟩
      · rw [heq]
        exact iff_of_false nofun fun h => h.2 ⟨hneg, hfound⟩
    · refine iff_of_false (fun hright => hneg ((hright.1 _).mp heq).1) ?_
      rw [hfound.2]
      exact fun h => h.elim hneg nofun
  · have heq := fdLookup_of_unused hfound
    refine iff_of_true ⟨fun fd => ?_, fun r => ?_⟩ ?_
    · rw [heq]
      exact iff_of_false nofun fun h => hfound ⟨h.2.1, h.2.2.1⟩
    · rw [heq]
      exact ⟨fun h => ⟨(Except.error.inj h).symm, fun h' => hfound h'.2⟩, fun h => by rw [h.1]⟩
    · by_cases hn : n < MAXFD
      · exact Or.inr (Bool.eq_false_iff.mpr fun hused => hfound ⟨hn, hused⟩)
      · exact Or.inl (by omega)

-- ---------------------------------------------------------------------------
-- The table
-- ---------------------------------------------------------------------------

/-- **The table of descriptors.** -/
theorem fdTable_iff (v : PageView) (n : Int) :
    v.FdAllocRight ∧ v.FdLookupRight n ↔ ¬ v.OnlyLastFree ∧ (0 ≤ n ∨ v.used n = false) :=
  and_congr fdAllocRight_iff fdLookupRight_iff

/-- All pages are mapped except that of the last descriptor. -/
def lastFree : PageView := ⟨fun _ => PTE_V, fun vpn => if vpn = VPN (INDEX2FD 31) then 0 else PTE_V⟩

/-- The last descriptor is not given out, and `-10` is one. -/
theorem fdTable_ends : ¬ (lastFree.FdAllocRight ∧ ∀ n, lastFree.FdLookupRight n) ∧
    lastFree.fdAlloc = .error (-E_MAX_OPEN) ∧ lastFree.used 31 = false ∧
    lastFree.fdLookup (-10) = .ok (FDTABLE - 10 * BY2PG) := by
  have hwrong : lastFree.fdLookup (-10) = .ok (FDTABLE - 10 * BY2PG) := by decide
  refine ⟨fun h => ?_, by decide, by decide, hwrong⟩
  exact absurd (((h.2 (-10)).1 _).mp hwrong).1 (by decide)

/-- The look-up of `FileIo`, on what the process sees. -/
theorem fdLookup_window {σ : Type} {os : Os σ} (h : ∀ va, os.fdUsed va = v.mapped va) (n : Int) :
    fdLookup os n = v.fdLookup n := by
  unfold fdLookup PageView.fdLookup
  simp only [h]

end Mos.User
