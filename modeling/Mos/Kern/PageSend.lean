import Mos.Kern.Errors
import Mos.Kern.IpcFlag

/-!
# MOS on RISC-V — the page of a message

A page travels with a message when both sides want it: the sender gives an
address `srcva`, the receiver one in `dstva`, and 0 means no page. `PageTravels`
says what a send that succeeds has to do then, to the address space of the
receiver and to the permission it reports.

The kernel asks the sender only, and it reports `PTE_V` always. So a send does
what it should exactly when both addresses are there and `perm` leaves the frame
of the entry alone (`pageTravels_iff`); `serve` cannot tell a request without a
page (`pageTravels_noPage`).
-/

namespace Mos.Kern

open Mos.Lib

variable {lo d : Nat} {k k' : Kernel} {role : Nat → Role} {s s' : Pmap} {e cur : Nat}

-- ---------------------------------------------------------------------------
-- The entry page_insert writes
-- ---------------------------------------------------------------------------

/-- A walk that succeeds ends in the page table the directory names. -/
theorem pgdirWalk_some {va : Nat} {r : Int} {p : PtePtr}
    (h : pgdirWalk s d va true = .ok (r, some p, s')) :
    testFlag (s'.mem d (PDX va)) PTE_V = true ∧ p = (pteFrame (s'.mem d (PDX va)), PTX va) := by
  unfold pgdirWalk at h
  by_cases hV : testFlag (s.mem d (PDX va)) PTE_V = true
  · rw [if_pos hV] at h
    obtain ⟨t, ht, h⟩ := bind_eq_ok.mp h
    obtain rfl := kaddr_eq ht
    cases h
    exact ⟨hV, rfl⟩
  · rw [if_neg hV, if_pos rfl] at h
    cases ha : pageAlloc s with
    | none =>
      rw [ha] at h
      cases h
    | some x =>
      rw [ha] at h
      obtain ⟨t, ht, h⟩ := bind_eq_ok.mp h
      obtain rfl := kaddr_eq ht
      cases h
      refine ⟨?_, rfl⟩
      rw [Pmap.store_mem_self]
      exact testFlag_V_mkPde x.1

/-- A slot depends on one word of the directory and one of the page table. -/
theorem pteAt_congr {i j : Nat} (hdir : s'.mem d i = s.mem d i)
    (htab : s'.mem (pteFrame (s.mem d i)) j = s.mem (pteFrame (s.mem d i)) j) :
    s'.pteAt d i j = s.pteAt d i j := by
  unfold Pmap.pteAt
  rw [hdir, htab]

/-- An entry of the page table of a slot is what the slot maps. -/
theorem pteAt_store {i j w : Nat} (hV : testFlag (s.mem d i) PTE_V = true)
    (hd : pteFrame (s.mem d i) ≠ d) (hw : testFlag w PTE_V = true) :
    (s.store (pteFrame (s.mem d i)) j w).pteAt d i j = some w := by
  unfold Pmap.pteAt
  rw [Pmap.store_mem_frame _ (Ne.symm hd), if_pos hV, Pmap.store_mem_self, if_pos hw]

theorem pageInsertNew_pteAt {P : Nat → Prop} (h : Apart P d s) {asid pp va perm : Nat}
    (hva : va < UTOP) (hrun : pageInsertNew s d asid pp va perm = .ok (0, s')) :
    s'.pteAt d (PDX va) (PTX va) = some (mkPte pp perm) := by
  obtain ⟨⟨r₁, pte, s₁⟩, hwalk, hrun⟩ := bind_eq_ok.mp hrun
  obtain ⟨-, hpte⟩ := h.pgdirWalk hva hwalk
  cases pte with
  | none =>
    obtain ⟨hno, rfl⟩ := pgdirWalk_none hwalk
    rw [pgdirWalk_noMem hno.1 hno.2] at hwalk
    cases hwalk
    cases hrun
  | some p =>
    cases hrun
    obtain ⟨hV, rfl⟩ := pgdirWalk_some hwalk
    have hd := (hpte _ rfl).2
    have hset := pteAt_store (j := PTX va) hV hd (testFlag_V_mkPte pp perm)
    have hne : PDX va ≠ PDX UVPT := by
      have hlow := PDX_lt_UTOP hva
      rw [PDX_UTOP] at hlow
      rw [PDX_UVPT]
      omega
    -- the last store hits the slot of the window, in the directory
    rw [← pteAt_store (j := PTX va) hV hd (testFlag_V_mkPte pp perm)]
    refine pteAt_congr ?_ ?_
    · rw [tlbFlush_mem, Pmap.store_mem, if_neg (fun hc => hne hc.2)]
      rfl
    · rw [Pmap.store_mem_frame _ (Ne.symm hd), tlbFlush_mem, Pmap.store_mem_frame _ hd]
      rfl

/-- **The entry of `page_insert`**, whatever the permission is. -/
theorem pageInsert_pteAt {P : Nat → Prop} (h : Apart P d s) {asid pp va perm : Nat} (hva : va < UTOP)
    (hl : Loose P d s va) (hrun : pageInsert s d asid pp va perm = .ok (0, s')) :
    s'.pteAt d (PDX va) (PTX va) = some (mkPte pp (readable perm)) := by
  obtain ⟨⟨r₁, pte, s₁⟩, hwalk, hrun⟩ := bind_eq_ok.mp hrun
  obtain ⟨rfl, ⟨hV, rfl⟩ | ⟨-, rfl⟩⟩ := pgdirWalk_false hwalk
  · simp only at hrun
    split_ifs at hrun with hW
    · obtain ⟨old, -, hrun⟩ := bind_eq_ok.mp hrun
      change (if old ≠ pp then _ else _) = _ at hrun
      split_ifs at hrun
      · obtain ⟨s₂, hrem, hrun⟩ := bind_eq_ok.mp hrun
        exact pageInsertNew_pteAt (h.pageRemove hva hl hrem).apart hva hrun
      · cases hrun
        have hd := (h.table _ (PDX_lt_UTOP hva) hV).2
        rw [← pteAt_store (j := PTX va) hV hd (testFlag_V_mkPte pp (readable perm))]
        exact pteAt_congr rfl rfl
    · exact pageInsertNew_pteAt h hva hrun
  · exact pageInsertNew_pteAt h hva hrun

/-- Below `UTOP` the view of a directory is what the hardware walk finds. -/
theorem view_low (hd : role d = .dir) {i : Nat} (hi : i < PDX UTOP) (j : Nat) :
    view kernOwn role s (d, i, j) = s.pteAt d i j :=
  if_pos ⟨hd, kernOwn_iff.mpr hi⟩

-- ---------------------------------------------------------------------------
-- A send that succeeds
-- ---------------------------------------------------------------------------

/-- What a send from `cur` must do to the pages of the receiver `e` and to the
permission it reports. -/
structure PageTravels (k k' : Kernel) (cur e srcva : Nat) : Prop where
  sent : srcva ≠ 0 → (k.envs e).ipcDstva ≠ 0 →
    (∃ w w', k.pm.pteAt (k.envs cur).pgdir (PDX srcva) (PTX srcva) = some w ∧
      k'.pm.pteAt (k.envs e).pgdir (PDX (k.envs e).ipcDstva) (PTX (k.envs e).ipcDstva) = some w' ∧
      pteFrame w' = pteFrame w) ∧
    testFlag (k'.envs e).ipcPerm PTE_V = true ∧
    ∀ i < PDX UTOP, ∀ j, (i, j) ≠ (PDX (k.envs e).ipcDstva, PTX (k.envs e).ipcDstva) →
      k'.pm.pteAt (k.envs e).pgdir i j = k.pm.pteAt (k.envs e).pgdir i j
  kept : srcva = 0 ∨ (k.envs e).ipcDstva = 0 →
    (∀ i < PDX UTOP, ∀ j, k'.pm.pteAt (k.envs e).pgdir i j = k.pm.pteAt (k.envs e).pgdir i j) ∧
      testFlag (k'.envs e).ipcPerm PTE_V = false

/-- The permission a send stores for the receiver. -/
def sentPerm (perm : Nat) : Nat := PTE_U ||| PTE_V ||| readable perm

/-- The entry `page_insert` makes of a sent page names the page: `perm` sets no bit
of the frame field that the frame does not set. -/
def PermKeeps (f perm : Nat) : Prop := pteFrame (mkPte f (readable (sentPerm perm))) = f

/-- Both sides name a page, and `perm` keeps its frame. -/
def PageMoves (k : Kernel) (cur e srcva perm : Nat) : Prop :=
  srcva ≠ 0 ∧ (k.envs e).ipcDstva ≠ 0 ∧
    ∀ w, k.pm.pteAt (k.envs cur).pgdir (PDX srcva) (PTX srcva) = some w → PermKeeps (pteFrame w) perm

theorem sentPerm_valid (perm : Nat) : testFlag (sentPerm perm) PTE_V = true := by
  unfold sentPerm
  rw [show PTE_V = 2 ^ 0 from rfl, testFlag_or, testFlag_or, testFlag_two_pow (2 ^ 0)]
  simp

/-- The two ways a send succeeds: without a page, and with one. -/
theorem ipcTrySend_ok {envid value srcva perm : Nat} (he : envid2env k cur envid false = .ok e)
    (hrun : sysIpcTrySend k cur envid value srcva perm = .ok (some 0, k')) :
    k'.envs = Function.update k.envs e (deliveredEnv k cur e value perm) ∧
      ((srcva = 0 ∧ k'.pm = k.pm) ∨ (srcva ≠ 0 ∧ srcva < UTOP ∧ ∃ pp p,
        pageLookup k.pm (k.envs cur).pgdir srcva = .ok (some (pp, p)) ∧
        pageInsert k.pm (k.envs e).pgdir (k.envs e).asid pp (k.envs e).ipcDstva (sentPerm perm) =
          .ok (0, k'.pm))) := by
  unfold sysIpcTrySend at hrun
  by_cases hva : srcva ≠ 0 ∧ isIllegalVa srcva = true
  · rw [if_pos hva] at hrun
    cases hrun
  · rw [if_neg hva, he] at hrun
    simp only at hrun
    by_cases hrecv : (k.envs e).ipcRecving = 0
    · rw [if_pos hrecv] at hrun
      cases hrun
    · rw [if_neg hrecv] at hrun
      obtain ⟨k₁, hdel, hrun⟩ := bind_eq_ok.mp hrun
      obtain ⟨q, log, rfl⟩ := deliver_eq hdel
      by_cases hsrc : srcva ≠ 0
      · rw [if_pos hsrc] at hrun
        have hlow : srcva < UTOP := (isIllegalVa_eq_false fun hc => hva ⟨hsrc, hc⟩).2
        obtain ⟨x, hlook, hrun⟩ := bind_eq_ok.mp hrun
        rw [deliveredEnv_space] at hlook
        cases x with
        | none => cases hrun
        | some y =>
          obtain ⟨pp, p⟩ := y
          obtain ⟨⟨r', pm'⟩, hins, hrun⟩ := bind_eq_ok.mp hrun
          simp only [Function.update_self] at hins
          have hr : r' = 0 := by
            cases hrun
            rfl
          subst hr
          cases hrun
          exact ⟨rfl, Or.inr ⟨hsrc, hlow, pp, p, hlook, hins⟩⟩
      · rw [if_neg hsrc] at hrun
        cases hrun
        exact ⟨rfl, Or.inl ⟨not_not.mp hsrc, rfl⟩⟩

/-- A frame that an env maps is not its directory. -/
theorem Accounted.walkLoose (h : Accounted lo k role) (he : k.Live e) {va : Nat} (hva : va < UTOP) :
    Loose (fun _ => False) (k.envs e).pgdir k.pm va := by
  intro w hw _
  refine ⟨fun hc => hc, ?_⟩
  intro hc
  have hdata := h.frames.data_of_leaf (PTX_lt va) (h.leaf_pteAt he (PDX_lt_UTOP hva) hw)
  rw [hc, h.dir e he] at hdata
  cases hdata

/-- **The page of a message.** A send that succeeds treats the receiver's pages and
the reported permission as it should exactly when both sides name a page and `perm`
keeps its frame. -/
theorem pageTravels_iff (h : Accounted lo k role) (hcur : k.curenv = some cur)
    (hdst : (k.envs e).ipcDstva < UTOP) {envid value srcva perm : Nat}
    (he : envid2env k cur envid false = .ok e)
    (hrun : sysIpcTrySend k cur envid value srcva perm = .ok (some 0, k')) :
    PageTravels k k' cur e srcva ↔ PageMoves k cur e srcva perm := by
  obtain ⟨henvs, hpage⟩ := ipcTrySend_ok he hrun
  have hvalid : testFlag (k'.envs e).ipcPerm PTE_V = true := by
    rw [henvs, Function.update_self]
    exact sentPerm_valid perm
  -- the reported permission is wrong when no page is wanted
  have hnone : srcva = 0 ∨ (k.envs e).ipcDstva = 0 → ¬ PageTravels k k' cur e srcva := by
    intro hz ht
    rw [(ht.kept hz).2] at hvalid
    cases hvalid
  rcases hpage with ⟨hz, -⟩ | ⟨hsrc, hlow, pp, p, hlook, hins⟩
  · exact ⟨fun ht => absurd ht (hnone (Or.inl hz)), fun hm => absurd hz hm.1⟩
  · by_cases hdz : (k.envs e).ipcDstva = 0
    · exact ⟨fun ht => absurd ht (hnone (Or.inr hdz)), fun hm => absurd hdz hm.2.1⟩
    · obtain ⟨w, hw, rfl, -, -, -⟩ := pageLookup_pteAt hlook
      have hlive := h.target hcur he
      have hcl : k.Live cur := (h.cur cur hcur).1
      have hset := pageInsert_pteAt (h.walk hlive) hdst (h.walkLoose hlive hdst) hins
      constructor
      · intro ht
        refine ⟨hsrc, hdz, fun w₁ hw₁ => ?_⟩
        obtain ⟨⟨w₂, w', hw₂, hw', hf⟩, -, -⟩ := ht.sent hsrc hdz
        rw [hw] at hw₁ hw₂
        obtain rfl := Option.some.inj hw₁
        obtain rfl := Option.some.inj hw₂
        rw [hset] at hw'
        obtain rfl := Option.some.inj hw'
        exact hf
      · rintro ⟨-, -, hkeep⟩
        have hframe : pteFrame (mkPte (pteFrame w) (readable (sentPerm perm))) = pteFrame w := hkeep w hw
        have hdata : role (pteFrame w) = .data :=
          h.frames.data_of_leaf (PTX_lt srcva) (h.leaf_pteAt hcl (PDX_lt_UTOP hlow) hw)
        have hi := PDX_lt_UTOP hdst
        rcases pageInsert_spec h.frames (k.envs e).asid (h.dir e hlive) (kernOwn_iff.mpr hi)
          kernOwn_UVPT (Or.inr hdata) hframe h.fits with ⟨-, hfail⟩ | ⟨-, s', role', hok, -, hstep⟩
        · rw [hfail] at hins
          cases hins
        · rw [hok] at hins
          obtain ⟨-, rfl⟩ := Prod.mk.inj (Except.ok.inj hins)
          refine ⟨fun _ _ => ⟨⟨w, _, hw, hset, hframe⟩, hvalid, ?_⟩, fun hz => absurd hz (by simp [hsrc, hdz])⟩
          intro i hi' j hne
          have hd' : role' (k.envs e).pgdir = .dir := (hstep.dir_iff _).mpr (h.dir e hlive)
          rw [← view_low hd' hi', ← view_low (h.dir e hlive) hi', hstep.view_eq, Function.update_of_ne]
          intro hc
          exact hne (Prod.mk.inj hc).2

/-- A message without a page to an env that waits for none. -/
theorem Waiting.send {k₀ : Kernel} {role₀ : Nat → Role} {a : Nat} (h : Waiting k₀ role₀ k a e) :
    ∃ k', sysIpcTrySend k e (k.envs a).id 7 0 0 = .ok (some 0, k') := by
  obtain ⟨k', hsend, -⟩ := h.order.send h.named (by rw [h.recving]; decide)
    (fun hm => h.ne (List.mem_singleton.mp hm)) 7 0
  exact ⟨k', hsend⟩

/-- `pageTravels_iff` for that message. -/
theorem pageTravels_iff_waiting :
    ∃ k a e k', sysIpcTrySend k e (k.envs a).id 7 0 0 = .ok (some 0, k') ∧
      (PageTravels k k' e a 0 ↔ PageMoves k e a 0 0) := by
  obtain ⟨k₀, role₀, k, a, e, h⟩ := smallBoot_waiting
  obtain ⟨role, hinv, hbd⟩ := h.order.ok
  obtain ⟨k', hsend⟩ := h.send
  exact ⟨k, a, e, k', hsend, pageTravels_iff (hinv.accounted hbd) h.cur (hinv.dst a) h.named hsend⟩

/-- **A page that is not there.** The receiver of a message without a page finds
`PTE_V` in its permission. -/
theorem pageTravels_noPage :
    ∃ k₀ k a e k', smallBoot.boot = .ok k₀ ∧ KernReach (fun _ _ => True) k₀ k ∧ k.curenv = some e ∧
      (k.envs a).ipcRecving = 1 ∧ sysIpcTrySend k e (k.envs a).id 7 0 0 = .ok (some 0, k') ∧
      testFlag (k'.envs a).ipcPerm PTE_V = true ∧ ¬ PageTravels k k' e a 0 := by
  obtain ⟨k₀, role₀, k, a, e, h⟩ := smallBoot_waiting
  obtain ⟨k', hsend⟩ := h.send
  have hvalid : testFlag (k'.envs a).ipcPerm PTE_V = true := by
    rw [(ipcTrySend_ok h.named hsend).1, Function.update_self]
    exact sentPerm_valid 0
  refine ⟨k₀, k, a, e, k', h.boot, h.reach, h.cur, h.recving, hsend, hvalid, ?_⟩
  intro ht
  rw [(ht.kept (Or.inl rfl)).2] at hvalid
  cases hvalid

end Mos.Kern
