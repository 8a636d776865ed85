import Mos.Kern.BootAlloc
import Mos.Kern.Syscall
import Mos.Lib.ByteMem

/-!
# MOS on RISC-V — the first stack of a spawned program

`init_stack` builds the stack page of a child in the parent, at `UTEMP`: the strings of
`argv` at the top of the page, the array of their addresses below, then `argv` and `argc`
for `main`. The addresses are those of the child, where the page is below `USTACKTOP`.
`argv` and its strings are outside of the page at `UTEMP`, which is there for such work.

Main results:

* `initStack_right_iff` — the page decodes to `argv` exactly if the sizes, as the code adds
  them up modulo `2 ^ 32`, do not fit by having wrapped round;
* `initStack_unterminated` — the array of addresses in the page does not end with a null.
-/

namespace Mos.User

open Mos.Lib Mos.Kern

-- ---------------------------------------------------------------------------
-- The source
-- ---------------------------------------------------------------------------

/-- A string, without the `NUL` at its end. -/
abbrev CString := {s : List (BitVec 8) // 0 ∉ s}

/-- A store outside of the page at `UTEMP`. What it destroys is not followed. -/
structure Stray where
  va : Nat
  deriving DecidableEq, Repr

/-- A store of bytes to the page at `UTEMP`. -/
def put (m : ByteMem) (va : Nat) (bs : List (BitVec 8)) : Except Stray ByteMem :=
  if UTEMP ≤ va ∧ va + bs.length ≤ UTEMP + BY2PG then .ok (storeBytes m va bs) else .error ⟨va⟩

def putWord (m : ByteMem) (va w : Nat) : Except Stray ByteMem :=
  if UTEMP ≤ va ∧ va + 4 ≤ UTEMP + BY2PG then .ok (storeWord m va w) else .error ⟨va⟩

/-- What the system calls of `init_stack` return. -/
structure StackCalls where
  memAlloc : Int
  memMap : Int
  memUnmap : Int

/-- What `init_stack` returns, the page it has mapped in the child, and `*init_sp`. -/
structure StackOut where
  ret : Int
  child : Option (Nat → BitVec 8)
  initSp : Option Nat

/-- The first loop: `tot`, an `int`. -/
def totalSize (argv : List CString) : Nat :=
  argv.foldl (fun tot s => (tot + (s.val.length + 1)) % 2 ^ 32) 0

/-- The bytes of a string, one after another. -/
def copyBytes (m : ByteMem) (ctemp : Nat) : List (BitVec 8) → Except Stray (ByteMem × Nat)
  | [] => .ok (m, ctemp)
  | b :: bs => do
    let m ← put m ctemp [b]
    copyBytes m ((ctemp + 1) % 2 ^ 32) bs

/-- The second loop. -/
def copyStrings (m : ByteMem) (ctemp : Nat) : List CString → Except Stray (ByteMem × Nat)
  | [] => .ok (m, ctemp)
  | s :: argv => do
    let (m, ctemp) ← copyBytes m ctemp s.val
    let m ← put m ctemp [0]
    copyStrings m ((ctemp + 1) % 2 ^ 32) argv

/-- The third loop; `arg` is the address of `args[i]`. -/
def setArgs (m : ByteMem) (arg ctemp : Nat) : List CString → Except Stray (ByteMem × Nat)
  | [] => .ok (m, ctemp)
  | s :: argv => do
    let m ← putWord m arg ctemp
    setArgs m ((arg + 4) % 2 ^ 32) ((ctemp + (s.val.length + 1)) % 2 ^ 32) argv

/-- The address in the child of what is at `va` in the page. -/
def inChild (va : Nat) : Nat := (USTACKTOP - UTEMP - BY2PG + va) % 2 ^ 32

/-- The page is filled; the result is the last value of `pargv_ptr`. -/
def fillStack (m : ByteMem) (strings args : Nat) (argv : List CString) : Except Stray (ByteMem × Nat) := do
  let (m, _) ← copyStrings m strings argv
  let (m, ctemp) ← setArgs m args (inChild strings) argv
  let ctemp := (ctemp + (2 ^ 32 - 1)) % 2 ^ 32
  let m ← putWord m ((args + 4 * argv.length) % 2 ^ 32) ctemp
  let pargvPtr := (args + (2 ^ 32 - 4)) % 2 ^ 32
  let m ← putWord m pargvPtr (inChild args)
  let pargvPtr := (pargvPtr + (2 ^ 32 - 4)) % 2 ^ 32
  let m ← putWord m pargvPtr argv.length
  return (m, pargvPtr)

/-- A fresh page at `UTEMP`. -/
def freshTemp (m : ByteMem) : ByteMem := fun x => if UTEMP ≤ x ∧ x < UTEMP + BY2PG then 0 else m x

/-- The test whether everything fits passes. -/
def PassesTest (argv : List CString) : Prop :=
  (ROUND (totalSize argv) 4 + 4 * (argv.length + 3)) % 2 ^ 32 ≤ BY2PG

instance (argv : List CString) : Decidable (PassesTest argv) := inferInstanceAs (Decidable (_ ≤ _))

/-- The page, from `UTEMP` on. -/
def stackPage (m : ByteMem) : Nat → BitVec 8 := fun i => m (UTEMP + i)

/-- The last part: the page goes to the child. -/
def mapStack (sys : StackCalls) (m : ByteMem) (pargvPtr : Nat) : StackOut :=
  let initSp := some (inChild pargvPtr)
  if sys.memMap < 0 then ⟨sys.memMap, none, initSp⟩
  else if sys.memUnmap < 0 then ⟨sys.memUnmap, some (stackPage m), initSp⟩
  else ⟨0, some (stackPage m), initSp⟩

def initStack (sys : StackCalls) (m : ByteMem) (argv : List CString) : Except Stray StackOut :=
  if ¬ PassesTest argv then .ok ⟨-E_NO_MEM, none, none⟩
  else
    let strings := (UTEMP + BY2PG + (2 ^ 32 - totalSize argv)) % 2 ^ 32
    let args := (UTEMP + BY2PG + (2 ^ 32 - ROUND (totalSize argv) 4) +
      (2 ^ 32 - 4 * (argv.length + 1) % 2 ^ 32)) % 2 ^ 32
    if sys.memAlloc < 0 then .ok ⟨sys.memAlloc, none, none⟩
    else do
      let (m, pargvPtr) ← fillStack (freshTemp m) strings args argv
      return mapStack sys m pargvPtr

-- ---------------------------------------------------------------------------
-- What the page should be
-- ---------------------------------------------------------------------------

/-- The bytes of the strings, each with its `NUL`. -/
def encode (argv : List CString) : List (BitVec 8) := argv.flatMap fun s => s.val ++ [0]

/-- Where string `i` starts in them. -/
def offset (argv : List CString) (i : Nat) : Nat := (encode (argv.take i)).length

/-- Strings, array and the two words fit one page. -/
def Fits (argv : List CString) : Prop :=
  ((encode argv).length + 3) / 4 * 4 + 4 * (argv.length + 3) ≤ BY2PG

/-- The memory of the child, with the page below `USTACKTOP`. -/
def childMem (page : Nat → BitVec 8) : ByteMem := fun va => page (va - (USTACKTOP - BY2PG))

/-- The string at `p`, up to the first `NUL`. -/
def StringAt (m : ByteMem) (p : Nat) (s : CString) : Prop :=
  (∀ j (hj : j < s.val.length), m (p + j) = s.val[j]) ∧ m (p + s.val.length) = 0

/-- The memory of the child decodes to `argv`, from `sp` on: `argc`, the address of the
array, the array, and the strings up to the end of the stack. -/
structure Decodes (m : ByteMem) (sp args strings : Nat) (argv : List CString) : Prop where
  argc : loadWord m sp = argv.length
  argvPtr : loadWord m (sp + 4) = args
  arg : ∀ i (hi : i < argv.length), ∃ p, loadWord m (args + 4 * i) = p ∧ StringAt m p argv[i] ∧
    strings ≤ p ∧ p + argv[i].val.length < USTACKTOP
  inside : USTACKTOP - BY2PG ≤ sp
  header : sp + 8 ≤ args
  array : args + 4 * (argv.length + 1) ≤ strings
  stringsEnd : strings + (encode argv).length = USTACKTOP

/-- The system calls succeed. -/
def StackCalls.Succeed (sys : StackCalls) : Prop := sys.memAlloc = 0 ∧ sys.memMap = 0 ∧ sys.memUnmap = 0

/-- What does not fit is refused, and what fits is decoded from the page in the child. -/
def InitStackRight (m : ByteMem) (argv : List CString) : Prop :=
  (¬ Fits argv → ∀ sys, initStack sys m argv = .ok ⟨-E_NO_MEM, none, none⟩) ∧
  (Fits argv → ∀ sys : StackCalls, sys.Succeed → ∃ page sp args strings,
    initStack sys m argv = .ok ⟨0, some page, some sp⟩ ∧ Decodes (childMem page) sp args strings argv)

/-- A scan of the words from `args` on, up to the first zero, stops at index `n`. -/
def ScanStops (m : ByteMem) (args n : Nat) : Prop :=
  loadWord m (args + 4 * n) = 0 ∧ ∀ i < n, loadWord m (args + 4 * i) ≠ 0

-- ---------------------------------------------------------------------------
-- Sizes
-- ---------------------------------------------------------------------------

variable {m m' : ByteMem} {argv : List CString} {c a i : Nat} {sys : StackCalls}

theorem encode_cons (s : CString) (argv : List CString) : encode (s :: argv) = s.val ++ [0] ++ encode argv :=
  List.flatMap_cons

theorem encode_cons_length (s : CString) (argv : List CString) :
    (encode (s :: argv)).length = s.val.length + 1 + (encode argv).length := by
  rw [encode_cons, List.length_append, List.length_append, List.length_singleton]

theorem foldl_totalSize (tot : Nat) (argv : List CString) :
    argv.foldl (fun tot s => (tot + (s.val.length + 1)) % 2 ^ 32) (tot % 2 ^ 32) =
      (tot + (encode argv).length) % 2 ^ 32 := by
  induction argv generalizing tot with
  | nil => rfl
  | cons s argv ih =>
    rw [List.foldl_cons, Nat.mod_add_mod, ih, encode_cons_length]
    congr 1
    omega

theorem totalSize_eq (argv : List CString) : totalSize argv = (encode argv).length % 2 ^ 32 := by
  unfold totalSize
  rw [← Nat.zero_mod (2 ^ 32), foldl_totalSize, Nat.zero_add]

/-- There is a `NUL` for each string. -/
theorem length_le_encode (argv : List CString) : argv.length ≤ (encode argv).length := by
  induction argv with
  | nil => rfl
  | cons s argv ih =>
    rw [encode_cons_length, List.length_cons]
    omega

theorem ROUND_four {n : Nat} (h : n + 3 < 2 ^ 32) : ROUND n 4 = (n + 3) / 4 * 4 := ROUND_two_pow (k := 2) (by decide) h

/-- Without a wrap, the test is right. -/
theorem passesTest_iff (h : (encode argv).length < 2 ^ 20) : PassesTest argv ↔ Fits argv := by
  have hlen := length_le_encode argv
  unfold PassesTest Fits
  rw [totalSize_eq, Nat.mod_eq_of_lt (a := (encode argv).length) (by omega), ROUND_four (by omega),
    Nat.mod_eq_of_lt (by omega)]

theorem Fits.lt (h : Fits argv) : (encode argv).length < 2 ^ 20 := by
  unfold Fits at h
  rw [show BY2PG = 4096 from rfl] at h
  omega

theorem Fits.passes (h : Fits argv) : PassesTest argv := (passesTest_iff h.lt).mpr h

-- ---------------------------------------------------------------------------
-- The loops
-- ---------------------------------------------------------------------------

/-- The page at `UTEMP`, in numbers. -/
theorem temp_eq : UTEMP = 0x3fe000 ∧ BY2PG = 0x1000 ∧ USTACKTOP = 0x7f3fe000 := by decide

theorem put_ok {bs : List (BitVec 8)} (hlow : UTEMP ≤ c) (hhigh : c + bs.length ≤ UTEMP + BY2PG) :
    put m c bs = .ok (storeBytes m c bs) := if_pos ⟨hlow, hhigh⟩

theorem copyBytes_run {bs : List (BitVec 8)} (hlow : UTEMP ≤ c) (hhigh : c + bs.length ≤ UTEMP + BY2PG) :
    copyBytes m c bs = .ok (storeBytes m c bs, c + bs.length) := by
  obtain ⟨hT, hB, -⟩ := temp_eq
  induction bs generalizing m c with
  | nil => rw [storeBytes_nil]; rfl
  | cons b bs ih =>
    rw [List.length_cons] at hhigh
    unfold copyBytes
    rw [put_ok hlow (by rw [List.length_singleton]; omega), Lib.ok_bind, Nat.mod_eq_of_lt (by omega),
      ih (by omega) (by omega), List.length_cons, Nat.add_comm bs.length, ← Nat.add_assoc]
    have hmem := storeBytes_append m c [b] bs
    rw [List.length_singleton, List.singleton_append] at hmem
    rw [hmem]

theorem copyStrings_run (hlow : UTEMP ≤ c) (hhigh : c + (encode argv).length ≤ UTEMP + BY2PG) :
    copyStrings m c argv = .ok (storeBytes m c (encode argv), c + (encode argv).length) := by
  obtain ⟨hT, hB, -⟩ := temp_eq
  induction argv generalizing m c with
  | nil =>
    show Except.ok (m, c) = Except.ok (storeBytes m c [], c)
    rw [storeBytes_nil]
  | cons s argv ih =>
    rw [encode_cons_length] at hhigh
    unfold copyStrings
    rw [copyBytes_run hlow (by omega), Lib.ok_bind]
    show (put _ _ _ >>= _) = _
    rw [put_ok (by omega) (by rw [List.length_singleton]; omega), Lib.ok_bind, Nat.mod_eq_of_lt (by omega),
      ih (by omega) (by omega), storeBytes_append, encode_cons,
      show c + s.val.length + 1 = c + (s.val ++ [0]).length by
        rw [List.length_append, List.length_singleton, Nat.add_assoc], storeBytes_append,
      ← encode_cons, encode_cons_length, List.length_append, List.length_singleton, Nat.add_assoc]

/-- What is copied is inside the page. -/
theorem copyBytes_le {bs : List (BitVec 8)} (hc : c ≤ UTEMP + BY2PG) {r : ByteMem × Nat}
    (h : copyBytes m c bs = .ok r) : r.2 = c + bs.length ∧ r.2 ≤ UTEMP + BY2PG := by
  obtain ⟨hT, hB, -⟩ := temp_eq
  induction bs generalizing m c with
  | nil =>
    cases h
    exact ⟨rfl, hc⟩
  | cons b bs ih =>
    unfold copyBytes at h
    obtain ⟨m', hput, hrest⟩ := Lib.bind_eq_ok.mp h
    unfold put at hput
    split_ifs at hput with hin
    rw [List.length_singleton] at hin
    rw [Nat.mod_eq_of_lt (by omega)] at hrest
    obtain ⟨heq, hle⟩ := ih (by omega) hrest
    rw [List.length_cons]
    exact ⟨by omega, hle⟩

theorem copyStrings_le (hc : c ≤ UTEMP + BY2PG) {r : ByteMem × Nat} (h : copyStrings m c argv = .ok r) :
    r.2 = c + (encode argv).length ∧ r.2 ≤ UTEMP + BY2PG := by
  obtain ⟨hT, hB, -⟩ := temp_eq
  induction argv generalizing m c with
  | nil =>
    cases h
    exact ⟨rfl, hc⟩
  | cons s argv ih =>
    unfold copyStrings at h
    obtain ⟨⟨m', c'⟩, hbytes, hrest⟩ := Lib.bind_eq_ok.mp h
    obtain ⟨hc', -⟩ := copyBytes_le hc hbytes
    obtain ⟨m'', hput, hrest⟩ := Lib.bind_eq_ok.mp hrest
    unfold put at hput
    split_ifs at hput with hin
    rw [List.length_singleton] at hin
    rw [Nat.mod_eq_of_lt (by omega)] at hrest
    obtain ⟨heq, hle⟩ := ih hin.2 hrest
    rw [encode_cons_length]
    exact ⟨by omega, hle⟩

/-- The first byte is inside the page. -/
theorem copyStrings_start {s : CString} {r : ByteMem × Nat} (h : copyStrings m c (s :: argv) = .ok r) :
    UTEMP ≤ c ∧ c ≤ UTEMP + BY2PG := by
  have hput : ∀ {m m' : ByteMem} {b : BitVec 8}, put m c [b] = .ok m' → UTEMP ≤ c ∧ c ≤ UTEMP + BY2PG := fun hput => by
    unfold put at hput
    split_ifs at hput with hin
    exact ⟨hin.1, le_trans (Nat.le_add_right _ _) hin.2⟩
  unfold copyStrings at h
  obtain ⟨⟨m', c'⟩, hbytes, hrest⟩ := Lib.bind_eq_ok.mp h
  cases hs : s.val with
  | nil =>
    rw [hs] at hbytes
    cases hbytes
    obtain ⟨m'', hnul, -⟩ := Lib.bind_eq_ok.mp hrest
    exact hput hnul
  | cons b bs =>
    rw [hs] at hbytes
    unfold copyBytes at hbytes
    obtain ⟨m'', hfirst, -⟩ := Lib.bind_eq_ok.mp hbytes
    exact hput hfirst

theorem putWord_ok {w : Nat} (hlow : UTEMP ≤ c) (hhigh : c + 4 ≤ UTEMP + BY2PG) :
    putWord m c w = .ok (storeWord m c w) := if_pos ⟨hlow, hhigh⟩

theorem offset_zero (argv : List CString) : offset argv 0 = 0 := rfl

theorem offset_succ (s : CString) (argv : List CString) (i : Nat) :
    offset (s :: argv) (i + 1) = s.val.length + 1 + offset argv i := by
  unfold offset
  rw [List.take_succ_cons, encode_cons_length]

theorem setArgs_run (argv : List CString) (hlow : UTEMP ≤ a) (hhigh : a + 4 * argv.length ≤ UTEMP + BY2PG)
    (hc : c + (encode argv).length < 2 ^ 32) :
    ∃ m', setArgs m a c argv = .ok (m', c + (encode argv).length) ∧
      (∀ i < argv.length, loadWord m' (a + 4 * i) = c + offset argv i) ∧
      (∀ x, x < a ∨ a + 4 * argv.length ≤ x → m' x = m x) := by
  obtain ⟨hT, hB, -⟩ := temp_eq
  induction argv generalizing m a c with
  | nil => exact ⟨m, rfl, fun i hi => absurd hi (Nat.not_lt_zero i), fun _ _ => rfl⟩
  | cons s argv ih =>
    rw [encode_cons_length] at hc
    rw [List.length_cons] at hhigh
    obtain ⟨m', hrun, hwords, hframe⟩ := ih (m := storeWord m a c) (a := a + 4) (c := c + (s.val.length + 1))
      (by omega) (by omega) (by omega)
    refine ⟨m', ?_, fun i hi => ?_, fun x hx => ?_⟩
    · unfold setArgs
      rw [putWord_ok hlow (by omega), Lib.ok_bind, Nat.mod_eq_of_lt (by omega), Nat.mod_eq_of_lt (by omega), hrun,
        encode_cons_length, Nat.add_assoc]
    · cases i with
      | zero =>
        rw [offset_zero, ← loadWord_storeWord m a (w := c) (by omega)]
        exact loadWord_congr fun x hlo hhi => hframe x (Or.inl (by omega))
      | succ i =>
        rw [List.length_cons] at hi
        rw [offset_succ, show a + 4 * (i + 1) = a + 4 + 4 * i by omega, hwords i (by omega)]
        omega
    · rw [List.length_cons] at hx
      rw [hframe x (by omega), storeWord_of_notMem (by omega)]

-- ---------------------------------------------------------------------------
-- The page
-- ---------------------------------------------------------------------------

/-- The page at `UTEMP`, filled for `argv`: the strings are at `strings`, and the words
below name what is where in the child. -/
structure Filled (m : ByteMem) (strings args : Nat) (argv : List CString) : Prop where
  argc : loadWord m (args - 8) = argv.length
  argvPtr : loadWord m (args - 4) = inChild args
  arg : ∀ i < argv.length, loadWord m (args + 4 * i) = inChild strings + offset argv i
  last : loadWord m (args + 4 * argv.length) = USTACKTOP - 1
  bytes : ∀ k (hk : k < (encode argv).length), m (strings + k) = (encode argv)[k]

/-- Where the strings and the array are in the page. -/
structure Placed (strings args : Nat) (argv : List CString) : Prop where
  low : UTEMP + 8 ≤ args
  array : args + 4 * (argv.length + 1) ≤ strings
  stringsEnd : strings + (encode argv).length = UTEMP + BY2PG

theorem fillStack_run {strings args : Nat} (h : Placed strings args argv) :
    ∃ m', fillStack m strings args argv = .ok (m', args - 8) ∧ Filled m' strings args argv := by
  obtain ⟨hT, hB, hU⟩ := temp_eq
  obtain ⟨hlow, harray, hend⟩ := h
  have hchild : inChild strings + (encode argv).length = USTACKTOP := by
    unfold inChild
    omega
  have hargs : inChild args < 2 ^ 32 := Nat.mod_lt _ (by decide)
  obtain ⟨m₁, hset, hwords, hframe⟩ := setArgs_run argv (m := storeBytes m strings (encode argv))
    (a := args) (c := inChild strings) (by omega) (by omega) (by omega)
  refine ⟨storeWord (storeWord (storeWord m₁ (args + 4 * argv.length) (USTACKTOP - 1)) (args - 4) (inChild args))
    (args - 8) argv.length, ?_, ?_, ?_, ?_, ?_, ?_⟩
  · unfold fillStack
    rw [copyStrings_run (by omega) (by omega), Lib.ok_bind]
    show (setArgs _ _ _ _ >>= _) = _
    rw [hset, Lib.ok_bind]
    show (putWord _ _ _ >>= _) = _
    rw [hchild, Nat.mod_eq_of_lt (show args + 4 * argv.length < 2 ^ 32 by omega),
      show (USTACKTOP + (2 ^ 32 - 1)) % 2 ^ 32 = USTACKTOP - 1 from rfl, putWord_ok (by omega) (by omega), Lib.ok_bind]
    show (putWord _ ((args + (2 ^ 32 - 4)) % 2 ^ 32) _ >>= _) = _
    rw [show (args + (2 ^ 32 - 4)) % 2 ^ 32 = args - 4 by omega, putWord_ok (by omega) (by omega), Lib.ok_bind]
    show (putWord _ ((args - 4 + (2 ^ 32 - 4)) % 2 ^ 32) _ >>= _) = _
    rw [show (args - 4 + (2 ^ 32 - 4)) % 2 ^ 32 = args - 8 by omega, putWord_ok (by omega) (by omega), Lib.ok_bind]
    rfl
  · exact loadWord_storeWord _ _ (by omega)
  · rw [loadWord_storeWord_of_ne (by omega), loadWord_storeWord _ _ hargs]
  · intro i hi
    rw [loadWord_storeWord_of_ne (by omega), loadWord_storeWord_of_ne (by omega),
      loadWord_storeWord_of_ne (by omega), hwords i hi]
  · rw [loadWord_storeWord_of_ne (by omega), loadWord_storeWord_of_ne (by omega),
      loadWord_storeWord _ _ (by omega)]
  · intro k hk
    rw [storeWord_of_notMem (by omega), storeWord_of_notMem (by omega), storeWord_of_notMem (by omega),
      hframe _ (by omega), storeBytes_byte]

/-- The addresses of `init_stack`. -/
theorem placed (h : Fits argv) :
    ∃ strings args, Placed strings args argv ∧
      (UTEMP + BY2PG + (2 ^ 32 - totalSize argv)) % 2 ^ 32 = strings ∧
      (UTEMP + BY2PG + (2 ^ 32 - ROUND (totalSize argv) 4) + (2 ^ 32 - 4 * (argv.length + 1) % 2 ^ 32)) % 2 ^ 32 =
        args := by
  obtain ⟨hT, hB, -⟩ := temp_eq
  have hlt := h.lt
  unfold Fits at h
  rw [totalSize_eq, Nat.mod_eq_of_lt (a := (encode argv).length) (by omega), ROUND_four (by omega),
    Nat.mod_eq_of_lt (a := 4 * (argv.length + 1)) (by omega)]
  exact ⟨_, _, ⟨by omega, by omega, by omega⟩, rfl, rfl⟩

-- ---------------------------------------------------------------------------
-- The page in the child
-- ---------------------------------------------------------------------------

variable {strings args : Nat}

/-- String `i`, its `NUL` and the strings after it. -/
theorem encode_split (hi : i < argv.length) :
    encode argv = encode (argv.take i) ++ (argv[i].val ++ ([0] ++ encode (argv.drop (i + 1)))) := by
  conv_lhs => rw [← List.take_append_drop i argv, List.drop_eq_getElem_cons hi]
  unfold encode
  rw [List.flatMap_append, List.flatMap_cons, List.append_assoc]

theorem Filled.byte (h : Filled m strings args argv) {k : Nat} {b : BitVec 8} (hb : (encode argv)[k]? = some b) :
    m (strings + k) = b := by
  obtain ⟨hk, hb⟩ := List.getElem?_eq_some_iff.mp hb
  rw [h.bytes k hk, hb]

theorem Filled.stringAt (h : Filled m strings args argv) (hi : i < argv.length) :
    StringAt m (strings + offset argv i) argv[i] ∧
      offset argv i + argv[i].val.length < (encode argv).length := by
  have hsplit := encode_split hi
  have htail : ∀ j, (encode argv)[offset argv i + j]? = (argv[i].val ++ ([0] ++ encode (argv.drop (i + 1))))[j]? := by
    intro j
    unfold offset
    conv_lhs => rw [hsplit]
    rw [List.getElem?_append_right (Nat.le_add_right _ _), Nat.add_sub_cancel_left]
  refine ⟨⟨fun j hj => ?_, ?_⟩, ?_⟩
  · rw [Nat.add_assoc]
    apply h.byte
    rw [htail, List.getElem?_append_left hj, List.getElem?_eq_getElem hj]
  · rw [Nat.add_assoc]
    apply h.byte
    rw [htail, List.getElem?_append_right le_rfl, Nat.sub_self]
    rfl
  · have hlen := congrArg List.length hsplit
    rw [List.length_append, List.length_append, List.length_append, List.length_singleton] at hlen
    unfold offset
    omega

theorem childMem_stackPage {x : Nat} (hx : UTEMP ≤ x) :
    childMem (stackPage m) (USTACKTOP - UTEMP - BY2PG + x) = m x := by
  obtain ⟨hT, hB, hU⟩ := temp_eq
  have hback : UTEMP + (USTACKTOP - UTEMP - BY2PG + x - (USTACKTOP - BY2PG)) = x := by omega
  unfold childMem stackPage
  rw [hback]

theorem loadWord_childMem {x : Nat} (hx : UTEMP ≤ x) :
    loadWord (childMem (stackPage m)) (USTACKTOP - UTEMP - BY2PG + x) = loadWord m x := by
  have hbyte : ∀ k, childMem (stackPage m) (USTACKTOP - UTEMP - BY2PG + x + k) = m (x + k) := fun k => by
    rw [Nat.add_assoc, childMem_stackPage (by omega)]
  unfold loadWord
  rw [childMem_stackPage hx, hbyte, hbyte, hbyte]

theorem inChild_eq {x : Nat} (hx : x ≤ UTEMP + BY2PG) : inChild x = USTACKTOP - UTEMP - BY2PG + x := by
  obtain ⟨hT, hB, hU⟩ := temp_eq
  exact Nat.mod_eq_of_lt (by omega)

theorem Filled.decodes (h : Filled m strings args argv) (hp : Placed strings args argv) :
    Decodes (childMem (stackPage m)) (inChild (args - 8)) (inChild args) (inChild strings) argv := by
  obtain ⟨hT, hB, hU⟩ := temp_eq
  obtain ⟨hlow, harray, hend⟩ := hp
  have hargs := inChild_eq (x := args) (by omega)
  have hstrings := inChild_eq (x := strings) (by omega)
  have hsp := inChild_eq (x := args - 8) (by omega)
  constructor
  case argc => rw [hsp, loadWord_childMem (by omega), h.argc]
  case argvPtr =>
    rw [hsp, show USTACKTOP - UTEMP - BY2PG + (args - 8) + 4 = USTACKTOP - UTEMP - BY2PG + (args - 4) by omega,
      loadWord_childMem (by omega), h.argvPtr]
  case arg =>
    intro i hi
    obtain ⟨⟨hchars, hnul⟩, hin⟩ := h.stringAt hi
    refine ⟨inChild strings + offset argv i, ?_, ⟨fun j hj => ?_, ?_⟩, by omega, by omega⟩
    · rw [hargs, Nat.add_assoc, loadWord_childMem (by omega), h.arg i hi]
    · rw [hstrings, Nat.add_assoc, Nat.add_assoc, ← Nat.add_assoc strings, childMem_stackPage (by omega)]
      exact hchars j hj
    · rw [hstrings, Nat.add_assoc, Nat.add_assoc, ← Nat.add_assoc strings, childMem_stackPage (by omega)]
      exact hnul
  case inside => omega
  case header => omega
  case array => omega
  case stringsEnd => omega

-- ---------------------------------------------------------------------------
-- init_stack
-- ---------------------------------------------------------------------------

theorem initStack_run (h : Fits argv) (hsys : sys.Succeed) (m : ByteMem) :
    ∃ m' strings args, Placed strings args argv ∧ Filled m' strings args argv ∧
      initStack sys m argv = .ok ⟨0, some (stackPage m'), some (inChild (args - 8))⟩ := by
  obtain ⟨strings, args, hp, hstrings, hargs⟩ := placed h
  obtain ⟨m', hfill, hfilled⟩ := fillStack_run (m := freshTemp m) hp
  refine ⟨m', strings, args, hp, hfilled, ?_⟩
  obtain ⟨halloc, hmap, hunmap⟩ := hsys
  unfold initStack
  simp only [hstrings, hargs]
  rw [if_neg (not_not_intro h.passes), if_neg (by omega), hfill, Lib.ok_bind]
  show Except.ok (mapStack sys m' (args - 8)) = _
  unfold mapStack
  rw [if_neg (by omega), if_neg (by omega)]

/-- The strings went into the page, so their size did not wrap. -/
theorem Fits.of_fill {r : ByteMem × Nat} (hpass : PassesTest argv) (h : fillStack m strings args argv = .ok r) :
    Fits argv := by
  obtain ⟨hT, hB, -⟩ := temp_eq
  refine (passesTest_iff ?_).mp hpass
  cases argv with
  | nil => decide
  | cons s argv =>
    unfold fillStack at h
    obtain ⟨⟨m₁, c₁⟩, hcopy, -⟩ := Lib.bind_eq_ok.mp h
    obtain ⟨hlow, hhigh⟩ := copyStrings_start hcopy
    obtain ⟨hc, hle⟩ := copyStrings_le hhigh hcopy
    omega

/-- The page of an `argv` that was accepted. -/
theorem initStack_accepts {ret : Int} {page : Nat → BitVec 8} {sp : Option Nat}
    (h : initStack sys m argv = .ok ⟨ret, some page, sp⟩) :
    ∃ m' strings args, Placed strings args argv ∧ Filled m' strings args argv ∧ page = stackPage m' ∧
      sp = some (inChild (args - 8)) := by
  unfold initStack at h
  by_cases hpass : PassesTest argv
  · rw [if_neg (not_not_intro hpass)] at h
    by_cases halloc : sys.memAlloc < 0
    · rw [if_pos halloc] at h
      cases h
    rw [if_neg halloc] at h
    obtain ⟨⟨m', pargvPtr⟩, hfill, hout⟩ := Lib.bind_eq_ok.mp h
    obtain ⟨strings, args, hp, hstrings, hargs⟩ := placed (Fits.of_fill hpass hfill)
    rw [hstrings, hargs] at hfill
    obtain ⟨m'', hfill', hfilled⟩ := fillStack_run (m := freshTemp m) hp
    rw [hfill'] at hfill
    cases hfill
    have hout : mapStack sys m' (args - 8) = ⟨ret, some page, sp⟩ := Except.ok.inj hout
    unfold mapStack at hout
    refine ⟨m', strings, args, hp, hfilled, ?_⟩
    split_ifs at hout <;> cases hout <;> exact ⟨rfl, rfl⟩
  · rw [if_pos hpass] at h
    cases h

/-- What passes the test is not refused. -/
theorem initStack_ne (hpass : PassesTest argv) (m : ByteMem) :
    initStack ⟨0, 0, 0⟩ m argv ≠ .ok ⟨-E_NO_MEM, none, none⟩ := by
  intro hrun
  unfold initStack at hrun
  rw [if_neg (not_not_intro hpass), if_neg (by decide)] at hrun
  obtain ⟨⟨m', pargvPtr⟩, -, hout⟩ := Lib.bind_eq_ok.mp hrun
  exact absurd (congrArg StackOut.ret (Except.ok.inj hout)) (show (0 : Int) ≠ -E_NO_MEM by decide)

/-- **The stack of a child.** It is right as long as sizes that wrapped do not pass the test. -/
theorem initStack_right_iff (m : ByteMem) (argv : List CString) :
    InitStackRight m argv ↔ (PassesTest argv → Fits argv) := by
  constructor
  · rintro ⟨hrefuses, -⟩ hpass
    by_contra hfits
    exact initStack_ne hpass m (hrefuses hfits ⟨0, 0, 0⟩)
  · intro hpass
    refine ⟨fun hfits sys => if_pos fun hp => hfits (hpass hp), fun hfits sys hsys => ?_⟩
    obtain ⟨m', strings, args, hp, hfilled, hrun⟩ := initStack_run hfits hsys m
    exact ⟨_, _, _, _, hrun, hfilled.decodes hp⟩

/-- With its `NUL`, 8 MiB. -/
def longString : CString :=
  ⟨List.replicate (2 ^ 23 - 1) 1, fun h => absurd (List.eq_of_mem_replicate h) (by decide)⟩

theorem longString_length : longString.val.length = 2 ^ 23 - 1 := List.length_replicate

/-- 512 times the same string: the size is `2 ^ 32`. -/
def wrappingArgv : List CString := List.replicate 512 longString

theorem encode_replicate_length (n : Nat) (s : CString) :
    (encode (List.replicate n s)).length = n * (s.val.length + 1) := by
  induction n with
  | zero => rw [Nat.zero_mul]; rfl
  | succ n ih => rw [List.replicate_succ, encode_cons_length, ih, Nat.succ_mul, Nat.add_comm]

/-- It passes the test, and overwrites the program. -/
theorem initStack_wraps : PassesTest wrappingArgv ∧ ¬ InitStackRight (fun _ => 0) wrappingArgv := by
  have hsize : (encode wrappingArgv).length = 2 ^ 32 := by
    unfold wrappingArgv
    rw [encode_replicate_length, longString_length]
    decide
  have hlen : wrappingArgv.length = 512 := List.length_replicate
  have hpass : PassesTest wrappingArgv := by
    unfold PassesTest
    rw [totalSize_eq, hsize, hlen]
    decide
  have hfits : ¬ Fits wrappingArgv := by
    unfold Fits
    rw [hsize, hlen]
    decide
  exact ⟨hpass, fun hright => initStack_ne hpass _ (hright.1 hfits ⟨0, 0, 0⟩)⟩

-- ---------------------------------------------------------------------------
-- The array as an argv
-- ---------------------------------------------------------------------------

/-- The word after the addresses. -/
theorem initStack_lastArg {ret : Int} {page : Nat → BitVec 8} {sp : Nat}
    (h : initStack sys m argv = .ok ⟨ret, some page, some sp⟩) :
    loadWord (childMem page) (loadWord (childMem page) (sp + 4) + 4 * argv.length) = USTACKTOP - 1 := by
  obtain ⟨hT, hB, hU⟩ := temp_eq
  obtain ⟨m', strings, args, hp, hfilled, rfl, hsp⟩ := initStack_accepts h
  cases hsp
  have hargs := inChild_eq (x := args) (by have := hp.array; have := hp.stringsEnd; omega)
  rw [(hfilled.decodes hp).argvPtr, hargs, Nat.add_assoc, loadWord_childMem (by have := hp.low; omega),
    hfilled.last]

/-- **No null at the end.** The word after the addresses is the address of the last byte of
the page. -/
theorem initStack_unterminated {ret : Int} {page : Nat → BitVec 8} {sp : Nat}
    (h : initStack sys m argv = .ok ⟨ret, some page, some sp⟩) :
    ¬ ScanStops (childMem page) (loadWord (childMem page) (sp + 4)) argv.length := by
  intro ⟨hzero, _⟩
  rw [initStack_lastArg h] at hzero
  exact absurd hzero (by decide)

/-- The `argv` of `echo`, with one argument. -/
def echoArgv : List CString := [⟨[0x65, 0x63, 0x68, 0x6f], by decide⟩, ⟨[0x61], by decide⟩]

theorem echoArgv_run : ∃ page sp, initStack ⟨0, 0, 0⟩ (fun _ => 0) echoArgv = .ok ⟨0, some page, some sp⟩ := by
  obtain ⟨m', strings, args, -, -, hrun⟩ := initStack_run (show Fits echoArgv from show (_ : Nat) ≤ _ by decide)
    (show StackCalls.Succeed ⟨0, 0, 0⟩ from ⟨rfl, rfl, rfl⟩) fun _ => 0
  exact ⟨_, _, hrun⟩

theorem initStack_unterminated_echo : ∃ page sp,
    initStack ⟨0, 0, 0⟩ (fun _ => 0) echoArgv = .ok ⟨0, some page, some sp⟩ ∧
      ¬ ScanStops (childMem page) (loadWord (childMem page) (sp + 4)) echoArgv.length := by
  obtain ⟨page, sp, hrun⟩ := echoArgv_run
  exact ⟨page, sp, hrun, initStack_unterminated hrun⟩

/-- The scan of the arguments of `echo` does not stop after two. -/
theorem initStack_echo_runsOn : ∃ page sp,
    initStack ⟨0, 0, 0⟩ (fun _ => 0) echoArgv = .ok ⟨0, some page, some sp⟩ ∧
      ¬ ScanStops (childMem page) (loadWord (childMem page) (sp + 4)) 2 := by
  obtain ⟨page, sp, hrun⟩ := echoArgv_run
  refine ⟨page, sp, hrun, ?_⟩
  intro ⟨hzero, _⟩
  have hlast := initStack_lastArg hrun
  rw [show echoArgv.length = 2 from rfl] at hlast
  rw [hlast] at hzero
  exact absurd hzero (by decide)

end Mos.User
