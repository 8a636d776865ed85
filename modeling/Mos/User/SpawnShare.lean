import Mos.Kern.Boot
import Mos.User.Space

/-!
# MOS on RISC-V — what spawn shares

After the program is in place, `spawn` goes through the page tables of the parent, in the
window of page tables, and maps every page with `PTE_LIBRARY` into the child. What it passes
as the permission are the twelve low bits of the entry: ten flags and two bits of the frame
number, which the kernel or-s into the number it builds.

Main results:

* `shareWord_eq_iff` — which entries come out as they went in; those made with a permission
  of ten bits do (`plainWord_mkPte`);
* `shareLibrary_ends` — the loop ends without error if there is room;
* `shareLibrary_iff` — a loop that ends without error has copied the entries exactly if all
  of them are such;
* `insert_refines` — `page_insert` on the kernel's page tables is `PageTables.insert`.
-/

namespace Mos.User

open Mos.Lib Mos.Kern

/-- The page tables of an env: which there are, and the entry of every page. -/
@[ext]
structure PageTables where
  table : Nat → Bool
  word : Nat → Nat
  absent : ∀ n, table (n / 1024) = false → word n = 0

/-- What the system call for page `n` finds: a page for a page table that is missing, and a
reference to drop for a page that is replaced. -/
structure ShareCalls where
  room : Nat → Bool
  counted : Nat → Bool

namespace PageTables

variable (c : ShareCalls) (s : PageTables)

def setWord (n w : Nat) : PageTables where
  table i := s.table i || i == n / 1024
  word := Function.update s.word n w
  absent := by
    intro m h
    obtain ⟨htable, hne⟩ := Bool.or_eq_false_iff.mp h
    by_cases hm : m = n
    · rw [hm, beq_self_eq_true] at hne
      cases hne
    · rw [Function.update_of_ne hm]
      exact s.absent m htable

/-- `page_lookup`. -/
def lookup (va : Nat) : Result (Option Nat) :=
  if testFlag (s.word (VPN va)) PTE_V then do
    let pp ← pa2page (PTE_ADDR (s.word (VPN va)))
    return some pp
  else return none

/-- The end of `page_insert`: the entry is written, in a new page table if need be. -/
def setEntry (n w : Nat) : Int × PageTables :=
  if s.table (n / 1024) || c.room n then (0, s.setWord n w) else (-E_NO_MEM, s)

/-- `page_insert`. A page that is replaced loses a reference. -/
def insert (pp va perm : Nat) : Result (Int × PageTables) :=
  if testFlag (s.word (VPN va)) PTE_V then do
    let old ← pa2page (PTE_ADDR (s.word (VPN va)))
    if old ≠ pp ∧ c.counted (VPN va) = false then .error .pageDecref
    else return s.setEntry c (VPN va) (mkPte pp (readable perm))
  else return s.setEntry c (VPN va) (mkPte pp (readable perm))

end PageTables

variable (c : ShareCalls) (parent child : PageTables)

/-- `syscall_mem_map(0, srcva, child, dstva, perm)`, for a child of the caller. -/
def memMapChild (srcva dstva perm : Nat) (child : PageTables) : Result (Int × PageTables) :=
  if isIllegalVa srcva then .ok (-E_INVAL, child)
  else if isIllegalVa dstva then .ok (-E_INVAL, child)
  else do
    match ← parent.lookup srcva with
    | none => return (-E_INVAL, child)
    | some pp => child.insert c pp dstva (perm ||| PTE_U)

def PGSHIFT : Nat := 12

/-- The loop over `pteno`. -/
def sharePages (pdeno : Nat) : List Nat → PageTables → Result (Int × PageTables)
  | [], child => .ok (0, child)
  | pteno :: ptenos, child =>
    let pn := (pdeno <<< 10) + pteno
    let perm := parent.word pn &&& ((1 <<< PGSHIFT) - 1)
    if testFlag perm PTE_V ∧ testFlag perm PTE_LIBRARY then do
      let va := pn <<< PGSHIFT
      let (r, child) ← memMapChild c parent va va perm child
      if r < 0 then return (r, child) else sharePages pdeno ptenos child
    else sharePages pdeno ptenos child

/-- The loop over `pdeno`. -/
def shareTables : List Nat → PageTables → Result (Int × PageTables)
  | [], child => .ok (0, child)
  | pdeno :: pdenos, child =>
    if parent.table pdeno then do
      let (r, child) ← sharePages c parent pdeno (List.range (PTX (2 ^ 32 - 1) + 1)) child
      if r < 0 then return (r, child) else shareTables pdenos child
    else shareTables pdenos child

def shareLibrary : Result (Int × PageTables) :=
  shareTables c parent (List.range (PDX USTACKTOP + 1)) child

/-- Page `n` of the parent is to be shared. -/
def Shared (n : Nat) : Prop :=
  testFlag (parent.word n) PTE_V = true ∧ testFlag (parent.word n) PTE_LIBRARY = true

/-- The shared pages have the parent's entries in the child, and the others are as they were. -/
def ShareKept (child' : PageTables) : Prop :=
  (∀ n, Shared parent n → child'.word n = parent.word n) ∧
    ∀ n, ¬ Shared parent n → child'.word n = child.word n

/-- An entry as `page_insert` makes it for a user, with no bits above the frame number of a
32-bit address. -/
def PlainWord (w : Nat) : Prop :=
  testFlag w PTE_U = true ∧ (testFlag w PTE_W = true → testFlag w PTE_R = true) ∧ w < 2 ^ 30

variable {c parent child} {child' child'' : PageTables} {w n : Nat}

-- ---------------------------------------------------------------------------
-- The entry
-- ---------------------------------------------------------------------------

/-- The entry that the kernel makes out of the parent's. -/
def shareWord (w : Nat) : Nat :=
  mkPte (pteFrame w) (readable ((w &&& ((1 <<< PGSHIFT) - 1)) ||| PTE_U))

/-- Of an entry, the two address macros leave bits 10 to 29. -/
theorem testBit_ADDR_PTE_PTE_ADDR (w i : Nat) :
    (ADDR_PTE (PTE_ADDR w)).testBit i = (w.testBit i && decide (10 ≤ i ∧ i < 30)) := by
  have hmask : (2 ^ 32 - 2 ^ 10 : Nat) = (2 ^ 22 - 1) * 2 ^ 10 := by decide
  unfold ADDR_PTE PTE_ADDR PPN
  rw [Nat.testBit_mod_two_pow, Nat.testBit_shiftLeft, Nat.testBit_shiftRight, Nat.testBit_mod_two_pow,
    Nat.testBit_shiftLeft, Nat.testBit_and, hmask, Nat.testBit_mul_two_pow, Nat.testBit_two_pow_sub_one]
  by_cases hi : 10 ≤ i ∧ i < 30
  · have hback : 12 + (i - 10) - 2 = i := by omega
    have hlt : i < 32 ∧ 12 + (i - 10) < 32 ∧ 2 ≤ 12 + (i - 10) ∧ i - 10 < 22 := by omega
    rw [hback]
    simp only [hi, hlt, decide_true, Bool.true_and, Bool.and_true, and_self]
  · rw [decide_eq_false hi, Bool.and_false]
    by_cases hlow : 10 ≤ i
    · have hhigh : ¬ 12 + (i - 10) < 32 := by omega
      rw [decide_eq_false hhigh, Bool.false_and, Bool.and_false, Bool.and_false]
    · rw [decide_eq_false (show ¬ i ≥ 10 from hlow), Bool.false_and, Bool.and_false]

theorem testBit_low (w i : Nat) : (w &&& ((1 <<< PGSHIFT) - 1)).testBit i = (w.testBit i && decide (i < 12)) := by
  rw [show (1 <<< PGSHIFT) - 1 = 2 ^ 12 - 1 from rfl, Nat.testBit_and, Nat.testBit_two_pow_sub_one]

theorem testFlag_low (w : Nat) {k : Nat} (hk : k < 12) :
    testFlag (w &&& ((1 <<< PGSHIFT) - 1)) (2 ^ k) = testFlag w (2 ^ k) := by
  rw [testFlag_two_pow, testFlag_two_pow, testBit_low, decide_eq_true hk, Bool.and_true]

/-- The two bits of the frame number that are passed along are there already: what is new
are the flags that the kernel adds, and what is lost are the two top bits. -/
theorem shareWord_testBit (hf : pteFrame w < npage) (i : Nat) : (shareWord w).testBit i =
    (w.testBit i && decide (i < 30) || decide (4 = i) || decide (1 = i) && w.testBit 2 || decide (0 = i)) := by
  have hW : testFlag (w &&& ((1 <<< PGSHIFT) - 1) ||| PTE_U) PTE_W = w.testBit 2 := by
    rw [show PTE_W = 2 ^ 2 from rfl, show PTE_U = 2 ^ 4 from rfl, testFlag_or, testFlag_low w (by decide),
      testFlag_two_pow, testFlag_two_pow, Nat.testBit_two_pow]
    exact Bool.or_false _
  have hperm : (readable (w &&& ((1 <<< PGSHIFT) - 1) ||| PTE_U)).testBit i =
      (w.testBit i && decide (i < 12) || decide (4 = i) || decide (1 = i) && w.testBit 2) := by
    unfold readable
    rw [hW]
    cases w.testBit 2 with
    | true =>
      rw [if_pos rfl, Nat.testBit_or, Nat.testBit_or, testBit_low, show PTE_U = 2 ^ 4 from rfl,
        show PTE_R = 2 ^ 1 from rfl, Nat.testBit_two_pow, Nat.testBit_two_pow, Bool.and_true]
    | false =>
      rw [if_neg nofun, Nat.testBit_or, testBit_low, show PTE_U = 2 ^ 4 from rfl, Nat.testBit_two_pow,
        Bool.and_false, Bool.or_false]
  have hhalves : (w.testBit i && decide (10 ≤ i ∧ i < 30) || w.testBit i && decide (i < 12)) =
      (w.testBit i && decide (i < 30)) := by
    rw [← Bool.and_or_distrib_left, ← Bool.decide_or]
    exact congrArg (w.testBit i && ·) (decide_eq_decide.mpr (by omega))
  unfold shareWord mkPte
  rw [page2pa_pteFrame hf, Nat.testBit_or, Nat.testBit_or, testBit_ADDR_PTE_PTE_ADDR, hperm,
    show PTE_V = 2 ^ 0 from rfl, Nat.testBit_two_pow, ← hhalves]
  simp only [Bool.or_assoc]

/-- **The entries that come out as they went in.** -/
theorem shareWord_eq_iff (hf : pteFrame w < npage) (hV : testFlag w PTE_V = true) :
    shareWord w = w ↔ PlainWord w := by
  rw [show PTE_V = 2 ^ 0 from rfl, testFlag_two_pow] at hV
  unfold PlainWord
  rw [show PTE_U = 2 ^ 4 from rfl, show PTE_W = 2 ^ 2 from rfl, show PTE_R = 2 ^ 1 from rfl, testFlag_two_pow,
    testFlag_two_pow, testFlag_two_pow]
  constructor
  · intro heq
    have hbit := fun i => (shareWord_testBit hf i).symm.trans (congrArg (·.testBit i) heq)
    refine ⟨?_, fun hW => ?_, ?_⟩
    · have h4 := hbit 4
      simpa using h4.symm
    · have h1 := hbit 1
      rw [hW] at h1
      simpa using h1.symm
    · refine Nat.lt_pow_two_of_testBit w fun i hi => ?_
      have hi' := hbit i
      rw [decide_eq_false (show ¬ i < 30 by omega), decide_eq_false (show ¬ 4 = i by omega),
        decide_eq_false (show ¬ 1 = i by omega), decide_eq_false (show ¬ 0 = i by omega)] at hi'
      simpa using hi'.symm
  · rintro ⟨hU, hR, hlt⟩
    apply Nat.eq_of_testBit_eq
    intro i
    rw [shareWord_testBit hf]
    by_cases hi : i < 30
    · rw [decide_eq_true hi, Bool.and_true]
      by_cases h4 : 4 = i
      · rw [← h4, hU]
        rfl
      · by_cases h1 : 1 = i
        · rw [← h1]
          cases hW : w.testBit 2 with
          | true =>
            rw [hR hW]
            rfl
          | false => simp
        · by_cases h0 : 0 = i
          · rw [← h0, hV]
            rfl
          · simp only [h4, h1, h0, decide_false, Bool.or_false, Bool.false_and]
    · have hhigh : w.testBit i = false :=
        Nat.testBit_eq_false_of_lt (Nat.lt_of_lt_of_le hlt (Nat.pow_le_pow_right (by decide) (by omega)))
      rw [hhigh, decide_eq_false (show ¬ 4 = i by omega), decide_eq_false (show ¬ 1 = i by omega),
        decide_eq_false (show ¬ 0 = i by omega)]
      rfl

/-- What `page_insert` makes for a user, of a permission of ten bits, is such an entry. -/
theorem plainWord_mkPte {f perm : Nat} (hf : f < npage) (hp : perm < 2 ^ 10) :
    PlainWord (mkPte f (readable (perm ||| PTE_U))) := by
  have hperm : readable (perm ||| PTE_U) < 2 ^ 10 := readable_lt (Nat.or_lt_two_pow hp (by decide))
  have hU : testFlag (perm ||| PTE_U) (2 ^ 4) = true := by
    rw [show PTE_U = 2 ^ 4 from rfl, testFlag_or, testFlag_two_pow (2 ^ 4)]
    exact Bool.or_true _
  unfold PlainWord
  rw [show PTE_U = 2 ^ 4 from rfl, show PTE_W = 2 ^ 2 from rfl, show PTE_R = 2 ^ 1 from rfl] at *
  rw [testFlag_mkPte _ _ (by decide) (by decide), testFlag_mkPte _ _ (by decide) (by decide),
    testFlag_mkPte _ _ (by decide) (by decide)]
  refine ⟨?_, ?_, ?_⟩
  · unfold readable
    split_ifs
    · rw [show PTE_R = 2 ^ 1 from rfl, testFlag_or, hU, Bool.true_or]
    · exact hU
  · unfold readable
    rw [show PTE_W = 2 ^ 2 from rfl]
    split_ifs with hW
    · intro _
      rw [show PTE_R = 2 ^ 1 from rfl, testFlag_or, testFlag_two_pow (2 ^ 1)]
      exact Bool.or_true _
    · exact fun h => absurd h hW
  · have haddr : ADDR_PTE (page2pa f) < 2 ^ 30 := by
      rw [ADDR_PTE_page2pa hf]
      rw [npage_eq] at hf
      omega
    exact Nat.or_lt_two_pow (Nat.or_lt_two_pow haddr (Nat.lt_trans hperm (by decide))) (by decide)

-- ---------------------------------------------------------------------------
-- The loop
-- ---------------------------------------------------------------------------

variable {T T' : Nat → Prop}

/-- From `child` to `child'`, the pages in `T` get the parent's entries, and no others. -/
structure SharedOn (parent : PageTables) (T : Nat → Prop) (child child' : PageTables) : Prop where
  taken : ∀ n, T n → pteFrame (parent.word n) < npage ∧ child'.word n = shareWord (parent.word n)
  kept : ∀ n, ¬ T n → child'.word n = child.word n

theorem SharedOn.refl (parent child : PageTables) : SharedOn parent (fun _ => False) child child :=
  ⟨nofun, fun _ _ => rfl⟩

theorem SharedOn.trans (h : SharedOn parent T child child') (h' : SharedOn parent T' child' child'') :
    SharedOn parent (fun n => T n ∨ T' n) child child'' where
  taken n hn := by
    by_cases hn' : T' n
    · exact h'.taken n hn'
    · rw [h'.kept n hn']
      exact h.taken n (hn.resolve_right hn')
  kept n hn := by
    rw [h'.kept n fun hn' => hn (Or.inr hn')]
    exact h.kept n fun hn' => hn (Or.inl hn')

theorem SharedOn.congr (h : SharedOn parent T child child') (hT : ∀ n, T n ↔ T' n) :
    SharedOn parent T' child child' where
  taken n hn := h.taken n ((hT n).mpr hn)
  kept n hn := h.kept n fun hn' => hn ((hT n).mp hn')

theorem pa2page_eq_ok {pa pp : Nat} : pa2page pa = .ok pp ↔ pa2idx pa < npage ∧ pp = pa2idx pa := by
  unfold pa2page
  split_ifs with h
  · exact iff_of_false nofun fun h' => absurd h'.1 (Nat.not_lt.mpr h)
  · exact ⟨fun h' => ⟨Nat.lt_of_not_le h, (Except.ok.inj h').symm⟩, fun h' => by rw [h'.2]⟩

/-- `page_insert` fails only for want of a page, and else writes the entry. -/
theorem insert_ok {s s' : PageTables} {pp va perm : Nat} {r : Int} (h : s.insert c pp va perm = .ok (r, s')) :
    r < 0 ∨ r = 0 ∧ s'.word = Function.update s.word (VPN va) (mkPte pp (readable perm)) := by
  have hneg : -E_NO_MEM < 0 := by decide
  have hset : ∀ {x : Int × PageTables}, s.setEntry c (VPN va) (mkPte pp (readable perm)) = x →
      x.1 < 0 ∨ x.1 = 0 ∧ x.2.word = Function.update s.word (VPN va) (mkPte pp (readable perm)) := by
    rintro x rfl
    unfold PageTables.setEntry
    split_ifs
    · exact Or.inr ⟨rfl, rfl⟩
    · exact Or.inl hneg
  unfold PageTables.insert at h
  split_ifs at h with hV
  · obtain ⟨old, -, h⟩ := (Lib.bind_eq_ok ..).mp h
    split_ifs at h
    exact hset (Except.ok.inj h)
  · exact hset (Except.ok.inj h)

/-- One system call of the loop. -/
theorem memMapChild_ok {r : Int} (hn : Shared parent n)
    (h : memMapChild c parent (n <<< PGSHIFT) (n <<< PGSHIFT) (parent.word n &&& ((1 <<< PGSHIFT) - 1)) child =
      .ok (r, child')) : r < 0 ∨ r = 0 ∧ SharedOn parent (· = n) child child' := by
  have hvpn : VPN (n <<< PGSHIFT) = n := by
    unfold VPN PGSHIFT
    rw [Nat.shiftLeft_shiftRight]
  unfold memMapChild at h
  split_ifs at h
  · cases h
    exact Or.inl (by decide)
  · obtain ⟨found, hfound, h⟩ := (Lib.bind_eq_ok ..).mp h
    unfold PageTables.lookup at hfound
    rw [hvpn, if_pos hn.1] at hfound
    obtain ⟨pp, hpp, hret⟩ := (Lib.bind_eq_ok ..).mp hfound
    cases hret
    obtain ⟨hlt, rfl⟩ := pa2page_eq_ok.mp hpp
    refine (insert_ok h).imp_right fun ⟨hr, hword⟩ => ⟨hr, ?_, fun m hm => ?_⟩
    · rintro m rfl
      rw [hword, hvpn, Function.update_self]
      exact ⟨hlt, rfl⟩
    · rw [hword, hvpn, Function.update_of_ne hm]

/-- The test of the loop. -/
theorem shared_test (parent : PageTables) (n : Nat) :
    (testFlag (parent.word n &&& ((1 <<< PGSHIFT) - 1)) PTE_V = true ∧
      testFlag (parent.word n &&& ((1 <<< PGSHIFT) - 1)) PTE_LIBRARY = true) ↔ Shared parent n := by
  unfold Shared
  rw [show PTE_V = 2 ^ 0 from rfl, show PTE_LIBRARY = 2 ^ 9 from rfl, testFlag_low _ (by decide),
    testFlag_low _ (by decide)]

/-- What a loop over a page table has done. -/
theorem sharePages_spec (pdeno : Nat) (ptenos : List Nat) (child : PageTables) {r : Int}
    (h : sharePages c parent pdeno ptenos child = .ok (r, child')) :
    r < 0 ∨ r = 0 ∧
      SharedOn parent (fun n => Shared parent n ∧ ∃ pteno ∈ ptenos, n = (pdeno <<< 10) + pteno) child child' := by
  induction ptenos generalizing child with
  | nil =>
    cases h
    exact Or.inr ⟨rfl, (SharedOn.refl parent child').congr fun n => iff_of_false nofun nofun⟩
  | cons pteno ptenos ih =>
    unfold sharePages at h
    by_cases hshared : Shared parent ((pdeno <<< 10) + pteno)
    · simp only [if_pos ((shared_test parent _).mpr hshared)] at h
      obtain ⟨⟨r₁, child₁⟩, hcall, h⟩ := (Lib.bind_eq_ok ..).mp h
      rcases memMapChild_ok hshared hcall with hneg | ⟨rfl, hon⟩
      · simp only [if_pos hneg] at h
        cases h
        exact Or.inl hneg
      · refine (ih child₁ h).imp_right fun ⟨hr, hrest⟩ => ⟨hr, (hon.trans hrest).congr fun n => ⟨?_, ?_⟩⟩
        · rintro (rfl | ⟨hn, pteno', hmem, rfl⟩)
          · exact ⟨hshared, pteno, List.mem_cons_self, rfl⟩
          · exact ⟨hn, pteno', List.mem_cons_of_mem _ hmem, rfl⟩
        · rintro ⟨hn, pteno', hmem, rfl⟩
          rcases List.mem_cons.mp hmem with rfl | hmem
          · exact Or.inl rfl
          · exact Or.inr ⟨hn, pteno', hmem, rfl⟩
    · simp only [if_neg (fun ht => hshared ((shared_test parent _).mp ht))] at h
      refine (ih child h).imp_right fun ⟨hr, hrest⟩ => ⟨hr, hrest.congr fun n => ⟨?_, ?_⟩⟩
      · rintro ⟨hn, pteno', hmem, rfl⟩
        exact ⟨hn, pteno', List.mem_cons_of_mem _ hmem, rfl⟩
      · rintro ⟨hn, pteno', hmem, rfl⟩
        rcases List.mem_cons.mp hmem with rfl | hmem
        · exact absurd hn hshared
        · exact ⟨hn, pteno', hmem, rfl⟩

theorem mem_table (pdeno n : Nat) : (∃ pteno ∈ List.range 1024, n = (pdeno <<< 10) + pteno) ↔ n / 1024 = pdeno := by
  rw [Nat.shiftLeft_eq]
  constructor
  · rintro ⟨pteno, hpteno, rfl⟩
    have hlt := List.mem_range.mp hpteno
    omega
  · exact fun hn => ⟨n % 1024, List.mem_range.mpr (by omega), by omega⟩

/-- Behind a missing page table nothing is shared. -/
theorem shared_table (h : Shared parent n) : parent.table (n / 1024) = true := by
  by_contra hno
  have hV := h.1
  rw [parent.absent n (Bool.eq_false_iff.mpr hno), testFlag_zero_left] at hV
  cases hV

/-- What the loop over the page tables has done. -/
theorem shareTables_spec (pdenos : List Nat) (child : PageTables) {r : Int}
    (h : shareTables c parent pdenos child = .ok (r, child')) :
    r < 0 ∨ r = 0 ∧ SharedOn parent (fun n => Shared parent n ∧ n / 1024 ∈ pdenos) child child' := by
  have hPTX : PTX (2 ^ 32 - 1) + 1 = 1024 := by decide
  induction pdenos generalizing child with
  | nil =>
    cases h
    exact Or.inr ⟨rfl, (SharedOn.refl parent child').congr fun n => iff_of_false nofun nofun⟩
  | cons pdeno pdenos ih =>
    unfold shareTables at h
    rw [hPTX] at h
    split_ifs at h with htable
    · obtain ⟨⟨r₁, child₁⟩, hrun, h⟩ := (Lib.bind_eq_ok ..).mp h
      rcases sharePages_spec pdeno _ child hrun with hneg | ⟨rfl, hon⟩
      · simp only [if_pos hneg] at h
        cases h
        exact Or.inl hneg
      · refine (ih child₁ h).imp_right fun ⟨hr, hrest⟩ => ⟨hr, (hon.trans hrest).congr fun n => ?_⟩
        rw [mem_table, List.mem_cons, and_or_left]
    · refine (ih child h).imp_right fun ⟨hr, hrest⟩ => ⟨hr, hrest.congr fun n => and_congr_right fun hn => ?_⟩
      rw [List.mem_cons]
      refine ⟨Or.inr, fun hn' => hn'.resolve_left fun heq => htable ?_⟩
      rw [← heq]
      exact shared_table hn

/-- What the loops have done, if they end without error. -/
theorem shareLibrary_spec (hrange : ∀ n, Shared parent n → UTEMP ≤ n * BY2PG ∧ n * BY2PG < UTOP)
    (hrun : shareLibrary c parent child = .ok (0, child')) : SharedOn parent (Shared parent) child child' := by
  have hU : UTOP = 0x7f400000 := by decide
  have hP : PDX USTACKTOP + 1 = 509 := by decide
  rcases shareTables_spec _ child hrun with hneg | ⟨-, hon⟩
  · exact absurd hneg (by decide)
  · refine hon.congr fun n => and_iff_left_of_imp fun hn => ?_
    have hlt := (hrange n hn).2
    rw [hP, List.mem_range]
    unfold BY2PG at hlt
    omega

-- ---------------------------------------------------------------------------
-- A loop that ends
-- ---------------------------------------------------------------------------

/-- The frame is the parent's, whatever the flags. -/
theorem pteFrame_shareWord (hf : pteFrame w < npage) : pteFrame (shareWord w) = pteFrame w := by
  have hmask : (2 ^ 32 - 2 ^ 10 : Nat) = (2 ^ 22 - 1) * 2 ^ 10 := by decide
  have haddr : PTE_ADDR (shareWord w) = PTE_ADDR w := by
    apply Nat.eq_of_testBit_eq
    intro i
    unfold PTE_ADDR
    simp only [Nat.testBit_mod_two_pow, Nat.testBit_shiftLeft, Nat.testBit_and, hmask, Nat.testBit_mul_two_pow,
      Nat.testBit_two_pow_sub_one, shareWord_testBit hf]
    by_cases hi : i < 32 ∧ 2 ≤ i ∧ 10 ≤ i - 2
    · have hne : i - 2 < 30 ∧ ¬ 4 = i - 2 ∧ ¬ 1 = i - 2 ∧ ¬ 0 = i - 2 := by omega
      simp only [hne, decide_true, decide_false, Bool.and_true, Bool.or_false, Bool.false_and]
    · by_cases h10 : 10 ≤ i - 2
      · have hout : ¬ (i < 32 ∧ 2 ≤ i) := fun h => hi ⟨h.1, h.2, h10⟩
        rcases not_and_or.mp hout with h | h
        · simp only [h, decide_false, Bool.false_and]
        · simp only [ge_iff_le, h, decide_false, Bool.false_and, Bool.and_false]
      · simp only [ge_iff_le, h10, decide_false, Bool.false_and, Bool.and_false]
  unfold pteFrame
  rw [haddr]

/-- The valid entries name frames of the kernel. -/
def PageTables.Managed (s : PageTables) : Prop :=
  ∀ n, testFlag (s.word n) PTE_V = true → pteFrame (s.word n) < npage

/-- Nothing is missing: pages for page tables, and references to drop. -/
structure ShareCalls.Plenty (c : ShareCalls) : Prop where
  room : ∀ n, c.room n = true
  counted : ∀ n, c.counted n = true

theorem SharedOn.managed (h : SharedOn parent T child child') (hchild : child.Managed) : child'.Managed := by
  intro n hV
  by_cases hn : T n
  · obtain ⟨hf, hword⟩ := h.taken n hn
    rw [hword, pteFrame_shareWord hf]
    exact hf
  · rw [h.kept n hn] at hV ⊢
    exact hchild n hV

theorem insert_ends (hc : c.Plenty) {s : PageTables} (hs : s.Managed) (pp va perm : Nat) :
    s.insert c pp va perm = .ok (0, s.setWord (VPN va) (mkPte pp (readable perm))) := by
  have hset : s.setEntry c (VPN va) (mkPte pp (readable perm)) =
      (0, s.setWord (VPN va) (mkPte pp (readable perm))) := by
    unfold PageTables.setEntry
    rw [hc.room, Bool.or_true, if_pos rfl]
  unfold PageTables.insert
  rw [hset]
  split_ifs with hV
  · have hkeep : ∀ old, ¬ (old ≠ pp ∧ c.counted (VPN va) = false) := fun old h => by
      rw [hc.counted] at h
      cases h.2
    rw [pa2page_eq_ok.mpr ⟨hs _ hV, rfl⟩, Lib.ok_bind, if_neg (hkeep _)]
    rfl
  · rfl

theorem memMapChild_ends (hc : c.Plenty) (hparent : parent.Managed) (hchild : child.Managed)
    (hn : Shared parent n) (hrange : UTEMP ≤ n * BY2PG ∧ n * BY2PG < UTOP) :
    ∃ child', memMapChild c parent (n <<< PGSHIFT) (n <<< PGSHIFT) (parent.word n &&& ((1 <<< PGSHIFT) - 1)) child =
      .ok (0, child') := by
  have hvpn : VPN (n <<< PGSHIFT) = n := by
    unfold VPN PGSHIFT
    rw [Nat.shiftLeft_shiftRight]
  have hlegal : isIllegalVa (n <<< PGSHIFT) = false := by
    unfold isIllegalVa PGSHIFT
    rw [decide_eq_false_iff_not, Nat.shiftLeft_eq]
    unfold BY2PG at hrange
    omega
  have hfound : parent.lookup (n <<< PGSHIFT) = .ok (some (pteFrame (parent.word n))) := by
    unfold PageTables.lookup
    rw [hvpn, if_pos hn.1, pa2page_eq_ok.mpr ⟨hparent n hn.1, rfl⟩]
    rfl
  have hinsert := insert_ends hc hchild (pteFrame (parent.word n)) (n <<< PGSHIFT)
    ((parent.word n &&& ((1 <<< PGSHIFT) - 1)) ||| PTE_U)
  refine ⟨_, Eq.trans ?_ hinsert⟩
  unfold memMapChild
  rw [if_neg (Bool.eq_false_iff.mp hlegal), if_neg (Bool.eq_false_iff.mp hlegal), hfound]
  rfl

theorem sharePages_ends (hc : c.Plenty) (hparent : parent.Managed)
    (hrange : ∀ n, Shared parent n → UTEMP ≤ n * BY2PG ∧ n * BY2PG < UTOP) (pdeno : Nat) (ptenos : List Nat)
    (child : PageTables) (hchild : child.Managed) :
    ∃ child', sharePages c parent pdeno ptenos child = .ok (0, child') := by
  induction ptenos generalizing child with
  | nil => exact ⟨child, rfl⟩
  | cons pteno ptenos ih =>
    unfold sharePages
    by_cases hn : Shared parent ((pdeno <<< 10) + pteno)
    · simp only [if_pos ((shared_test parent _).mpr hn)]
      obtain ⟨child₁, hcall⟩ := memMapChild_ends hc hparent hchild hn (hrange _ hn)
      rcases memMapChild_ok hn hcall with hneg | ⟨-, hon⟩
      · exact absurd hneg (by decide)
      · rw [hcall]
        exact ih child₁ (hon.managed hchild)
    · simp only [if_neg (fun ht => hn ((shared_test parent _).mp ht))]
      exact ih child hchild

/-- If nothing is missing, the loop ends without error. -/
theorem shareLibrary_ends (hc : c.Plenty) (hparent : parent.Managed) (hchild : child.Managed)
    (hrange : ∀ n, Shared parent n → UTEMP ≤ n * BY2PG ∧ n * BY2PG < UTOP) :
    ∃ child', shareLibrary c parent child = .ok (0, child') := by
  unfold shareLibrary
  induction List.range (PDX USTACKTOP + 1) generalizing child with
  | nil => exact ⟨child, rfl⟩
  | cons pdeno pdenos ih =>
    unfold shareTables
    split_ifs
    · obtain ⟨child₁, hrun⟩ := sharePages_ends hc hparent hrange pdeno _ child hchild
      rcases sharePages_spec pdeno _ child hrun with hneg | ⟨-, hon⟩
      · exact absurd hneg (by decide)
      · rw [hrun]
        exact ih (hon.managed hchild)
    · exact ih hchild

/-- **What spawn shares.** -/
theorem shareLibrary_iff (hrange : ∀ n, Shared parent n → UTEMP ≤ n * BY2PG ∧ n * BY2PG < UTOP)
    (hrun : shareLibrary c parent child = .ok (0, child')) :
    ShareKept parent child child' ↔ ∀ n, Shared parent n → PlainWord (parent.word n) := by
  have hon := shareLibrary_spec hrange hrun
  constructor
  · rintro ⟨hsame, -⟩ n hn
    obtain ⟨hf, hword⟩ := hon.taken n hn
    exact (shareWord_eq_iff hf hn.1).mp (hword.symm.trans (hsame n hn))
  · refine fun hplain => ⟨fun n hn => ?_, hon.kept⟩
    obtain ⟨hf, hword⟩ := hon.taken n hn
    exact hword.trans ((shareWord_eq_iff hf hn.1).mpr (hplain n hn))

def PageTables.empty : PageTables := ⟨fun _ => false, fun _ => 0, fun _ _ => rfl⟩

def TMPVA : Nat := 0x50005000

/-- What `syscall_mem_alloc(0, TMPVA, perm)` leaves. -/
def libraryPage (perm : Nat) : PageTables :=
  PageTables.empty.setWord (VPN TMPVA) (mkPte 5 (readable (perm ||| PTE_U)))

theorem libraryPage_word {perm n : Nat} (h : testFlag ((libraryPage perm).word n) PTE_V = true) :
    n = VPN TMPVA := by
  by_contra hn
  have hzero : (libraryPage perm).word n = 0 := Function.update_of_ne hn ..
  rw [hzero, testFlag_zero_left] at h
  cases h

theorem libraryPage_range {perm n : Nat} (h : Shared (libraryPage perm) n) :
    UTEMP ≤ n * BY2PG ∧ n * BY2PG < UTOP := by
  rw [libraryPage_word h.1]
  decide

/-- There is room for everything. -/
def plenty : ShareCalls := ⟨fun _ => true, fun _ => true⟩

theorem libraryPage_ends (perm : Nat) (hf : pteFrame ((libraryPage perm).word (VPN TMPVA)) < npage) :
    ∃ child', shareLibrary plenty (libraryPage perm) PageTables.empty = .ok (0, child') := by
  refine shareLibrary_ends ⟨fun _ => rfl, fun _ => rfl⟩ (fun n hV => ?_) (fun n hV => ?_) fun n => libraryPage_range
  · rw [libraryPage_word hV]
    exact hf
  · have hzero : PageTables.empty.word n = 0 := rfl
    rw [hzero, testFlag_zero_left] at hV
    cases hV

theorem shareLibrary_kept : ∃ child',
    shareLibrary plenty (libraryPage (PTE_W ||| PTE_LIBRARY)) PageTables.empty = .ok (0, child') ∧
      ShareKept (libraryPage (PTE_W ||| PTE_LIBRARY)) PageTables.empty child' := by
  obtain ⟨child', hrun⟩ := libraryPage_ends (PTE_W ||| PTE_LIBRARY) (by decide)
  refine ⟨child', hrun, (shareLibrary_iff (fun n => libraryPage_range) hrun).mpr fun n hn => ?_⟩
  rw [libraryPage_word hn.1]
  unfold PlainWord
  decide

/-- No call asks whether `perm` has bits above the frame number, and these are lost. -/
theorem shareLibrary_topBit : ∃ child',
    shareLibrary plenty (libraryPage (PTE_LIBRARY ||| 2 ^ 30)) PageTables.empty = .ok (0, child') ∧
      Shared (libraryPage (PTE_LIBRARY ||| 2 ^ 30)) (VPN TMPVA) ∧
      ¬ ShareKept (libraryPage (PTE_LIBRARY ||| 2 ^ 30)) PageTables.empty child' := by
  have hshared : Shared (libraryPage (PTE_LIBRARY ||| 2 ^ 30)) (VPN TMPVA) := by
    unfold Shared
    decide
  obtain ⟨child', hrun⟩ := libraryPage_ends (PTE_LIBRARY ||| 2 ^ 30) (by decide)
  refine ⟨child', hrun, hshared, fun hkept => ?_⟩
  have hword := ((shareLibrary_spec (fun n => libraryPage_range) hrun).taken _ hshared).2
  rw [hkept.1 _ hshared] at hword
  exact absurd hword (by decide)

-- ---------------------------------------------------------------------------
-- The page tables of the kernel
-- ---------------------------------------------------------------------------

section

variable {own : Nat → Bool} {lo : Nat} {s : Pmap} {role : Nat → Role} {d pp va perm : Nat}

/-- What the kernel has in directory `d`. -/
def tablesOf (own : Nat → Bool) (role : Nat → Role) (s : Pmap) (d : Nat) : PageTables where
  table i := own i && testFlag (s.mem d i) PTE_V
  word n := (view own role s (d, n / 1024, n % 1024)).getD 0
  absent := by
    intro n h
    rcases Bool.and_eq_false_iff.mp h with hown | hpde
    · have hnot : ¬ (role d = .dir ∧ own (n / 1024) = true) := fun h' => by
        rw [hown] at h'
        cases h'.2
      show Option.getD (if role d = .dir ∧ own (n / 1024) = true then _ else none) 0 = 0
      rw [if_neg hnot]
      rfl
    · rw [FrameInv.view_absent hpde]
      rfl

theorem VPN_slot (hva : va < 2 ^ 32) : VPN va / 1024 = PDX va ∧ VPN va % 1024 = PTX va := by
  rw [PDX_eq, PTX_eq, show VPN va = va / 4096 from PPN_eq va]
  omega

/-- A step that sets one entry, seen in its directory. -/
theorem tablesOf_step {s' : Pmap} {role' : Nat → Role} {w : Nat}
    (hstep : MapStep own lo s role (slotOf d va) (some w) s' role') (hd : role d = .dir) (hva : va < 2 ^ 32)
    (hown : own (PDX va) = true) (hUVPT : own (PDX UVPT) = false) :
    tablesOf own role' s' d = (tablesOf own role s d).setWord (VPN va) w := by
  obtain ⟨hPDX, hPTX⟩ := VPN_slot hva
  have hnew : view own role' s' (d, PDX va, PTX va) = some w := by
    rw [hstep.view_eq]
    exact Function.update_self ..
  refine PageTables.ext (funext fun i => ?_) (funext fun n => ?_)
  · show (own i && testFlag (s'.mem d i) PTE_V) = (own i && testFlag (s.mem d i) PTE_V || i == VPN va / 1024)
    rw [hPDX]
    by_cases hi : i = PDX va
    · obtain ⟨t, ht, -⟩ := hstep.inv.view_eq_some.mp hnew
      rw [hi, beq_self_eq_true, Bool.or_true, hown, (hstep.inv.tablePde t d _ ht).2.2, testFlag_V_mkPde]
      rfl
    · rw [beq_eq_false_iff_ne.mpr hi, Bool.or_false]
      cases hi' : own i with
      | false => rfl
      | true =>
        have hne : (d, i) ≠ (d, PDX va) := fun heq => hi (Prod.mk.inj heq).2
        have hne' : (d, i) ≠ (d, PDX UVPT) := fun heq => by
          rw [(Prod.mk.inj heq).2, hUVPT] at hi'
          cases hi'
        rw [hstep.mem_dir d i hd hne hne']
  · show (view own role' s' (d, n / 1024, n % 1024)).getD 0 =
      Function.update (tablesOf own role s d).word (VPN va) w n
    by_cases hn : n = VPN va
    · rw [hn, Function.update_self, hPDX, hPTX, hnew]
      rfl
    · have hne : (d, n / 1024, n % 1024) ≠ slotOf d va := fun heq => hn (by
        obtain ⟨-, heq⟩ := Prod.mk.inj heq
        obtain ⟨hq, hr⟩ := Prod.mk.inj heq
        rw [← hPDX] at hq
        rw [← hPTX] at hr
        omega)
      rw [Function.update_of_ne hn, hstep.view_eq, Function.update_of_ne hne]
      rfl

/-- The other directories do not see it. -/
theorem tablesOf_step_other {s' : Pmap} {role' : Nat → Role} {v : Option Nat}
    (hstep : MapStep own lo s role (slotOf d va) v s' role') {d' : Nat} (hd' : d' ≠ d) (hdir : role d' = .dir) :
    tablesOf own role' s' d' = tablesOf own role s d' := by
  refine PageTables.ext (funext fun i => ?_) (funext fun n => ?_)
  · have hne : ∀ j, (d', i) ≠ (d, j) := fun j heq => hd' (Prod.mk.inj heq).1
    show (own i && testFlag (s'.mem d' i) PTE_V) = (own i && testFlag (s.mem d' i) PTE_V)
    rw [hstep.mem_dir d' i hdir (hne _) (hne _)]
  · have hne : (d', n / 1024, n % 1024) ≠ slotOf d va := fun heq => hd' (Prod.mk.inj heq).1
    show (view own role' s' (d', n / 1024, n % 1024)).getD 0 = (view own role s (d', n / 1024, n % 1024)).getD 0
    rw [hstep.view_eq, Function.update_of_ne hne]

/-- `page_insert` on the page tables of the kernel. -/
theorem insert_refines (h : FrameInv own lo s role) (asid : Nat) (hd : role d = .dir) (hva : va < 2 ^ 32)
    (hown : own (PDX va) = true) (hUVPT : own (PDX UVPT) = false) (hpp : role pp = .fresh ∨ role pp = .data)
    (hframe : pteFrame (mkPte pp (readable perm)) = pp) (hb : Bounded own role s) :
    ∃ r s' role', pageInsert s d asid pp va perm = .ok (r, s') ∧ FrameInv own lo s' role' ∧
      (tablesOf own role s d).insert ⟨fun _ => !s.pageFreeList.isEmpty, fun _ => true⟩ pp va perm =
        .ok (r, tablesOf own role' s' d) ∧
      ∀ d', d' ≠ d → role d' = .dir → tablesOf own role' s' d' = tablesOf own role s d' := by
  obtain ⟨hPDX, hPTX⟩ := VPN_slot hva
  have hword : (tablesOf own role s d).word (VPN va) = (view own role s (slotOf d va)).getD 0 := by
    show (view own role s (d, VPN va / 1024, VPN va % 1024)).getD 0 = _
    rw [hPDX, hPTX]
    rfl
  have htable : (tablesOf own role s d).table (VPN va / 1024) = testFlag (s.mem d (PDX va)) PTE_V := by
    show (own (VPN va / 1024) && testFlag (s.mem d (VPN va / 1024)) PTE_V) = _
    rw [hPDX, hown, Bool.true_and]
  -- whatever was mapped, the end of `page_insert` is the same
  have hinsert : (tablesOf own role s d).insert ⟨fun _ => !s.pageFreeList.isEmpty, fun _ => true⟩ pp va perm =
      .ok ((tablesOf own role s d).setEntry ⟨fun _ => !s.pageFreeList.isEmpty, fun _ => true⟩ (VPN va)
        (mkPte pp (readable perm))) := by
    unfold PageTables.insert
    split_ifs with hV
    · rw [hword] at hV ⊢
      cases hv : view own role s (slotOf d va) with
      | none =>
        rw [hv] at hV
        cases hV
      | some w =>
        obtain ⟨t, ht, hm, hV'⟩ := h.view_eq_some.mp hv
        have hdata := h.leafData t d (PDX va) (PTX va) ht (PTX_lt va) (by rw [hm]; exact hV')
        have hlt : pteFrame w < npage := by
          rw [hm] at hdata
          exact h.lt_npage (by simp [hdata])
        have hkeep : ∀ old, ¬ (old ≠ pp ∧ False) := fun old h' => h'.2
        simp only [Option.getD_some, pa2page_ok hlt, Lib.ok_bind, if_neg (hkeep _)]
        rfl
    · rfl
  rcases pageInsert_spec h asid hd hown hUVPT hpp hframe hb with ⟨⟨hpde, hfree⟩, hrun⟩ | ⟨hyes, s', role', hrun, -, hstep⟩
  · refine ⟨_, s, role, hrun, h, ?_, fun _ _ _ => rfl⟩
    rw [hinsert]
    unfold PageTables.setEntry
    rw [htable, hpde, hfree]
    rfl
  · refine ⟨_, s', role', hrun, hstep.inv, ?_, fun d' hd' hdir => tablesOf_step_other hstep hd' hdir⟩
    have hroom : ((tablesOf own role s d).table (VPN va / 1024) || !s.pageFreeList.isEmpty) = true := by
      rw [htable]
      cases hpde : testFlag (s.mem d (PDX va)) PTE_V with
      | true => rfl
      | false =>
        have hne : s.pageFreeList ≠ [] := fun hnil => hyes ⟨hpde, hnil⟩
        rw [Bool.false_or, Bool.not_eq_true', List.isEmpty_eq_false_iff]
        exact hne
    rw [hinsert, tablesOf_step hstep hd hva hown hUVPT]
    unfold PageTables.setEntry
    rw [if_pos hroom]

end

end Mos.User
