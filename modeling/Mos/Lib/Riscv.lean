import Mos.Lib.ByteMem

/-!
# A small RISC-V machine

The instructions that trap entries and exits are written with, on a machine with 32-bit
registers, control registers and byte memory; what the hardware does at a trap and at
`sret`. `exec` runs a block of code up to the point where it is left, and stops before an
instruction at which a supervisor interrupt may come in.

Main results:

* `exec_ops` — a straight run of instructions that leave `sstatus` alone;
* `runOps_stores` and `runOps_loads` — registers stored to, and loaded from, consecutive words;
* `loadWord_storeWords` and `storeWords_of_notMem` — what is in memory then;
* `Goes.unique` — a program leaves in one way;
* `sret_trap` — a trap that is returned from.
-/

namespace Mos.Lib.Riscv

abbrev Word := BitVec 32

inductive Csr where
  | sstatus | sscratch | scause | sepc | stval | sip | satp | time
  deriving DecidableEq, Repr

structure Machine where
  x : Nat → Word
  csr : Csr → Word
  mem : ByteMem
  pc : Word
  user : Bool

namespace Machine

/-- Register 0 reads as zero. -/
def reg (m : Machine) (i : Nat) : Word := if i = 0 then 0 else m.x i

/-- Nothing is written to register 0. -/
def setReg (m : Machine) (i : Nat) (v : Word) : Machine :=
  if i = 0 then m else { m with x := Function.update m.x i v }

def setCsr (m : Machine) (c : Csr) (v : Word) : Machine := { m with csr := Function.update m.csr c v }

/-- `off(base)`. -/
def addr (m : Machine) (base off : Nat) : Nat := (m.reg base + BitVec.ofNat 32 off).toNat

end Machine

-- ---------------------------------------------------------------------------
-- Instructions
-- ---------------------------------------------------------------------------

/-- The instructions after which the next one follows. -/
inductive Op where
  | sw (rs off base : Nat)
  | lw (rd off base : Nat)
  | li (rd : Nat) (v : Word)             -- also `la`
  | mv (rd rs : Nat)
  | addi (rd rs : Nat) (v : Word)
  | add (rd rs rt : Nat)
  | and (rd rs rt : Nat)
  | slli (rd rs n : Nat)
  | csrr (rd : Nat) (c : Csr)
  | csrw (c : Csr) (rs : Nat)
  | csrs (c : Csr) (rs : Nat)
  | csrc (c : Csr) (rs : Nat)
  | csrrw (rd : Nat) (c : Csr) (rs : Nat)
  | fenceI

def Op.exec (m : Machine) : Op → Machine
  | .sw rs off base => { m with mem := storeWord m.mem (m.addr base off) (m.reg rs).toNat }
  | .lw rd off base => m.setReg rd (BitVec.ofNat 32 (loadWord m.mem (m.addr base off)))
  | .li rd v => m.setReg rd v
  | .mv rd rs => m.setReg rd (m.reg rs)
  | .addi rd rs v => m.setReg rd (m.reg rs + v)
  | .add rd rs rt => m.setReg rd (m.reg rs + m.reg rt)
  | .and rd rs rt => m.setReg rd (m.reg rs &&& m.reg rt)
  | .slli rd rs n => m.setReg rd (m.reg rs <<< n)
  | .csrr rd c => m.setReg rd (m.csr c)
  | .csrw c rs => m.setCsr c (m.reg rs)
  | .csrs c rs => m.setCsr c (m.csr c ||| m.reg rs)
  | .csrc c rs => m.setCsr c (m.csr c &&& ~~~ m.reg rs)
  | .csrrw rd c rs => (m.setCsr c (m.reg rs)).setReg rd (m.csr c)
  | .fenceI => m

def runOps (m : Machine) (ops : List Op) : Machine := ops.foldl Op.exec m

/-- Instructions of a program with labels in `L`. -/
inductive Instr (L : Type) where
  | op (o : Op)
  | bltz (rs : Nat) (l : L)
  | bnez (rs : Nat) (l : L)
  | beq (rs rt : Nat) (l : L)
  | j (l : L)
  | jr (rs : Nat)
  | call (l : L)
  | sret

/-- How a block is left: to a label, to an address, into a function with the rest of the
block to come, or back to what was trapped. -/
inductive Exit (L : Type) where
  | goto (l : L)
  | jump (a : Word)
  | call (l : L) (rest : List (Instr L))
  | sret

/-- Bit `i` of `w` becomes `b`. -/
def setBit (w : Word) (i : Nat) (b : Bool) : Word :=
  if b then w ||| BitVec.twoPow 32 i else w &&& ~~~ BitVec.twoPow 32 i

def SIE : Nat := 1
def SPIE : Nat := 5
def SPP : Nat := 8
def SUM : Nat := 18

namespace Machine

def status (m : Machine) (i : Nat) : Bool := (m.csr .sstatus).getLsbD i

/-- Before the next instruction, a supervisor interrupt may come in. -/
def interruptible (m : Machine) : Bool := !m.user && m.status SIE

end Machine

section

variable {L : Type}

/-- Runs a block. There is no result if an interrupt may come in on the way, or at its end if
it does not jump. -/
def exec : List (Instr L) → Machine → Option (Exit L × Machine)
  | [], _ => none
  | i :: is, m =>
    if m.interruptible then none
    else match i with
      | .op o => exec is (o.exec m)
      | .bltz rs l => if (m.reg rs).msb then some (.goto l, m) else exec is m
      | .bnez rs l => if m.reg rs ≠ 0 then some (.goto l, m) else exec is m
      | .beq rs rt l => if m.reg rs = m.reg rt then some (.goto l, m) else exec is m
      | .j l => some (.goto l, m)
      | .jr rs => some (.jump (m.reg rs), m)
      | .call l => some (.call l is, m)
      | .sret => some (.sret, m)

/-- From the code `is`, block after block, to an exit `e` that leaves the program: `place`
says where the blocks are. -/
inductive Goes (code : L → Option (List (Instr L))) (place : L → Word) :
    List (Instr L) → Machine → Exit L → Machine → Prop where
  | leave {is : List (Instr L)} {m m' : Machine} {e : Exit L} : exec is m = some (e, m') →
      (∀ l, e = .goto l → code l = none) → (∀ a, e ≠ .jump a) → Goes code place is m e m'
  | goto {is is' : List (Instr L)} {m m₁ m' : Machine} {e : Exit L} {l : L} :
      exec is m = some (.goto l, m₁) → code l = some is' → Goes code place is' m₁ e m' →
      Goes code place is m e m'
  | jump {is is' : List (Instr L)} {m m₁ m' : Machine} {e : Exit L} {l : L} :
      exec is m = some (.jump (place l), m₁) → code l = some is' → Goes code place is' m₁ e m' →
      Goes code place is m e m'

end

-- ---------------------------------------------------------------------------
-- The hardware at a trap
-- ---------------------------------------------------------------------------

namespace Machine

/-- A trap: interrupts off, supervisor mode, and what was before is noted in `sstatus`. -/
def trap (m : Machine) (cause tval : Word) : Machine :=
  { m with
    csr := fun c => match c with
      | .sstatus =>
        setBit (setBit (setBit (m.csr .sstatus) SPIE (m.status SIE)) SIE false) SPP (!m.user)
      | .scause => cause
      | .stval => tval
      | .sepc => m.pc
      | c => m.csr c
    user := false }

/-- `sret`: back to what `sstatus` and `sepc` say. -/
def sret (m : Machine) : Machine :=
  { m with
    csr := Function.update m.csr .sstatus
      (setBit (setBit (setBit (m.csr .sstatus) SIE (m.status SPIE)) SPIE true) SPP false)
    pc := m.csr .sepc
    user := !m.status SPP }

end Machine

-- ---------------------------------------------------------------------------
-- Registers
-- ---------------------------------------------------------------------------

section

variable {m : Machine} {i j : Nat} {v w : Word}

theorem getLsbD_setBit (w : Word) {i : Nat} (hi : i < 32) (b : Bool) (j : Nat) :
    (setBit w i b).getLsbD j = if j = i then b else w.getLsbD j := by
  unfold setBit
  by_cases hj : j = i
  · subst hj
    cases b with
    | true => simp [hi]
    | false => simp [hi]
  · rw [if_neg hj]
    have hne : ¬ i = j := fun h => hj h.symm
    by_cases hlt : j < 32
    · cases b with
      | true => simp [BitVec.getLsbD_twoPow, hne]
      | false => simp [hj, hlt]
    · have hge : 32 ≤ j := Nat.le_of_not_lt hlt
      rw [BitVec.getLsbD_of_ge _ _ hge, BitVec.getLsbD_of_ge _ _ hge]

@[simp] theorem reg_zero (m : Machine) : m.reg 0 = 0 := rfl

theorem reg_pos (hi : i ≠ 0) : m.reg i = m.x i := if_neg hi

theorem reg_setReg (hi : i ≠ 0) : (m.setReg i v).reg j = if j = i then v else m.reg j := by
  unfold Machine.setReg
  rw [if_neg hi]
  unfold Machine.reg
  by_cases hj : j = i
  · subst hj
    rw [if_neg hi, if_pos rfl]
    exact Function.update_self ..
  · rw [if_neg hj]
    simp only [Function.update_of_ne hj]

theorem setReg_mem (m : Machine) (i : Nat) (v : Word) : (m.setReg i v).mem = m.mem := by
  unfold Machine.setReg
  split_ifs <;> rfl

theorem setReg_csr (m : Machine) (i : Nat) (v : Word) : (m.setReg i v).csr = m.csr := by
  unfold Machine.setReg
  split_ifs <;> rfl

theorem setReg_user (m : Machine) (i : Nat) (v : Word) : (m.setReg i v).user = m.user := by
  unfold Machine.setReg
  split_ifs <;> rfl

theorem setReg_pc (m : Machine) (i : Nat) (v : Word) : (m.setReg i v).pc = m.pc := by
  unfold Machine.setReg
  split_ifs <;> rfl

end

-- ---------------------------------------------------------------------------
-- Consecutive words
-- ---------------------------------------------------------------------------

/-- The words `ws`, from `a` on. -/
def storeWords (m : ByteMem) (a : Nat) : List Nat → ByteMem
  | [] => m
  | w :: ws => storeWords (storeWord m a w) (a + 4) ws

section

variable {mem : ByteMem} {a x : Nat} {ws : List Nat}

theorem storeWords_append (mem : ByteMem) (a : Nat) (ws ws' : List Nat) :
    storeWords mem a (ws ++ ws') = storeWords (storeWords mem a ws) (a + 4 * ws.length) ws' := by
  induction ws generalizing mem a with
  | nil => rfl
  | cons w ws ih =>
    have haddr : a + 4 * (w :: ws).length = a + 4 + 4 * ws.length := by
      rw [List.length_cons]
      omega
    rw [haddr]
    exact ih (storeWord mem a w) (a + 4)

theorem storeWords_of_notMem (h : x < a ∨ a + 4 * ws.length ≤ x) : storeWords mem a ws x = mem x := by
  induction ws generalizing mem a with
  | nil => rfl
  | cons w ws ih =>
    rw [List.length_cons] at h
    have hrest : storeWords (storeWord mem a w) (a + 4) ws x = storeWord mem a w x :=
      ih (by omega)
    exact hrest.trans (storeWord_of_notMem (by omega))

theorem loadWord_storeWords {i : Nat} (hi : i < ws.length) (hw : ∀ w ∈ ws, w < 2 ^ 32) :
    loadWord (storeWords mem a ws) (a + 4 * i) = ws[i] := by
  induction ws generalizing mem a i with
  | nil => exact absurd hi (Nat.not_lt_zero i)
  | cons w ws ih =>
    have hws : ∀ v ∈ ws, v < 2 ^ 32 := fun v hv => hw v (List.mem_cons_of_mem w hv)
    cases i with
    | zero =>
      have hkeep : loadWord (storeWords (storeWord mem a w) (a + 4) ws) a =
          loadWord (storeWord mem a w) a :=
        loadWord_congr fun x _ _ => storeWords_of_notMem (by omega)
      exact hkeep.trans (loadWord_storeWord mem a (hw w List.mem_cons_self))
    | succ i =>
      have haddr : a + 4 * (i + 1) = a + 4 + 4 * i := by omega
      rw [haddr]
      exact ih (Nat.lt_of_succ_lt_succ hi) hws

end

-- ---------------------------------------------------------------------------
-- Straight runs
-- ---------------------------------------------------------------------------

/-- An instruction that leaves `sstatus` alone. -/
def Op.KeepsStatus : Op → Prop
  | .csrw c _ | .csrs c _ | .csrc c _ | .csrrw _ c _ => c ≠ .sstatus
  | _ => True

section

variable {L : Type} {m : Machine} {ops : List Op}

theorem Op.KeepsStatus.exec {o : Op} (h : o.KeepsStatus) (m : Machine) :
    (o.exec m).csr .sstatus = m.csr .sstatus ∧ (o.exec m).user = m.user := by
  cases o with
  | sw | fenceI => exact ⟨rfl, rfl⟩
  | lw | li | mv | addi | add | and | slli | csrr =>
    exact ⟨congrFun (setReg_csr ..) _, setReg_user ..⟩
  | csrw | csrs | csrc => exact ⟨Function.update_of_ne (Ne.symm h) .., rfl⟩
  | csrrw rd c rs =>
    refine ⟨(congrFun (setReg_csr ..) _).trans ?_, setReg_user ..⟩
    exact Function.update_of_ne (Ne.symm h) ..

theorem runOps_status (h : ∀ o ∈ ops, o.KeepsStatus) (m : Machine) :
    (runOps m ops).csr .sstatus = m.csr .sstatus ∧ (runOps m ops).user = m.user := by
  induction ops generalizing m with
  | nil => exact ⟨rfl, rfl⟩
  | cons o ops ih =>
    have ho := (h o List.mem_cons_self).exec m
    have hrest := ih (fun o' ho' => h o' (List.mem_cons_of_mem o ho')) (o.exec m)
    exact ⟨hrest.1.trans ho.1, hrest.2.trans ho.2⟩

theorem interruptible_congr {m' : Machine} (hst : m'.csr .sstatus = m.csr .sstatus)
    (hu : m'.user = m.user) : m'.interruptible = m.interruptible := by
  unfold Machine.interruptible Machine.status
  rw [hst, hu]

/-- No interrupt comes in before the next instruction. -/
theorem exec_cons (hm : m.interruptible = false) (i : Instr L) (is : List (Instr L)) :
    exec (i :: is) m = match i with
      | .op o => exec is (o.exec m)
      | .bltz rs l => if (m.reg rs).msb then some (.goto l, m) else exec is m
      | .bnez rs l => if m.reg rs ≠ 0 then some (.goto l, m) else exec is m
      | .beq rs rt l => if m.reg rs = m.reg rt then some (.goto l, m) else exec is m
      | .j l => some (.goto l, m)
      | .jr rs => some (.jump (m.reg rs), m)
      | .call l => some (.call l is, m)
      | .sret => some (.sret, m) :=
  if_neg (hm ▸ Bool.false_ne_true)

/-- **A straight run.** -/
theorem exec_ops (h : ∀ o ∈ ops, o.KeepsStatus) (hm : m.interruptible = false)
    (is : List (Instr L)) : exec (ops.map .op ++ is) m = exec is (runOps m ops) := by
  induction ops generalizing m with
  | nil => rfl
  | cons o ops ih =>
    obtain ⟨hst, hu⟩ := (h o List.mem_cons_self).exec m
    have hstep : exec ((o :: ops).map Instr.op ++ is) m = exec (ops.map Instr.op ++ is) (o.exec m) :=
      exec_cons hm (.op o) _
    rw [hstep, ih (fun o' ho' => h o' (List.mem_cons_of_mem o ho'))
      ((interruptible_congr hst hu).trans hm)]
    rfl

/-- One instruction, whatever it does to `sstatus`. -/
theorem exec_op (hm : m.interruptible = false) (o : Op) (is : List (Instr L)) :
    exec (.op o :: is) m = exec is (o.exec m) :=
  exec_cons hm _ is

section

variable (hm : m.interruptible = false) (is : List (Instr L))
include hm

theorem exec_bltz (rs : Nat) (l : L) : exec (.bltz rs l :: is) m =
    if (m.reg rs).msb then some (.goto l, m) else exec is m :=
  exec_cons hm _ is

theorem exec_bnez (rs : Nat) (l : L) : exec (.bnez rs l :: is) m =
    if m.reg rs ≠ 0 then some (.goto l, m) else exec is m :=
  exec_cons hm _ is

theorem exec_beq (rs rt : Nat) (l : L) : exec (.beq rs rt l :: is) m =
    if m.reg rs = m.reg rt then some (.goto l, m) else exec is m :=
  exec_cons hm _ is

theorem exec_j (l : L) : exec (.j l :: is) m = some (.goto l, m) :=
  exec_cons hm _ is

theorem exec_jr (rs : Nat) : exec (.jr rs :: is) m = some (.jump (m.reg rs), m) :=
  exec_cons hm _ is

theorem exec_call (l : L) : exec (.call l :: is) m = some (.call l is, m) :=
  exec_cons hm _ is

theorem exec_sret : exec (.sret :: is) m = some (.sret, m) :=
  exec_cons hm _ is

end

theorem runOps_append (m : Machine) (ops ops' : List Op) :
    runOps m (ops ++ ops') = runOps (runOps m ops) ops' := List.foldl_append

theorem addr_eq {base off : Nat} (h : (m.reg base).toNat + off < 2 ^ 32) :
    m.addr base off = (m.reg base).toNat + off := by
  unfold Machine.addr
  rw [BitVec.toNat_add, BitVec.toNat_ofNat]
  omega

theorem exec_sw {rs off base : Nat} (h : (m.reg base).toNat + off < 2 ^ 32) :
    (Op.sw rs off base).exec m =
      { m with mem := storeWord m.mem ((m.reg base).toNat + off) (m.reg rs).toNat } := by
  rw [← addr_eq h]
  rfl

theorem exec_lw {rd off base : Nat} (h : (m.reg base).toNat + off < 2 ^ 32) :
    (Op.lw rd off base).exec m =
      m.setReg rd (BitVec.ofNat 32 (loadWord m.mem ((m.reg base).toNat + off))) := by
  rw [← addr_eq h]
  rfl

/-- Registers `0` to `n - 1` are stored. -/
theorem runOps_stores (base n : Nat) (h : (m.reg base).toNat + 4 * n ≤ 2 ^ 32) :
    runOps m ((List.range n).map fun i => .sw i (4 * i) base) =
      { m with
        mem := storeWords m.mem (m.reg base).toNat ((List.range n).map fun i => (m.reg i).toNat) } := by
  induction n with
  | zero => rfl
  | succ n ih =>
    rw [List.range_succ, List.map_append, runOps_append, ih (by omega), List.map_append,
      storeWords_append, List.length_map, List.length_range]
    exact exec_sw (m := { m with
      mem := storeWords m.mem (m.reg base).toNat ((List.range n).map fun i => (m.reg i).toNat) })
      (show (m.reg base).toNat + 4 * n < 2 ^ 32 by omega)

/-- The registers `l` are loaded. -/
theorem runOps_loads (base : Nat) (l : List Nat) (hbase : base ∉ l) (h0 : 0 ∉ l)
    (h : ∀ i ∈ l, (m.reg base).toNat + 4 * i < 2 ^ 32) :
    runOps m (l.map fun i => .lw i (4 * i) base) =
      { m with
        x := fun i =>
          if i ∈ l then BitVec.ofNat 32 (loadWord m.mem ((m.reg base).toNat + 4 * i)) else m.x i } := by
  induction l generalizing m with
  | nil => simp [runOps]
  | cons r l ih =>
    obtain ⟨hbr, hbase⟩ := not_or.mp (fun hm => hbase (List.mem_cons.mpr hm))
    obtain ⟨h0r, h0⟩ := not_or.mp (fun hm => h0 (List.mem_cons.mpr hm))
    have hr : r ≠ 0 := fun hr => h0r hr.symm
    obtain ⟨m₁, hm₁⟩ : ∃ m₁, m₁ = (Op.lw r (4 * r) base).exec m := ⟨_, rfl⟩
    have hx₁ : m₁ = { m with
        x := Function.update m.x r
          (BitVec.ofNat 32 (loadWord m.mem ((m.reg base).toNat + 4 * r))) } := by
      rw [hm₁, exec_lw (h r List.mem_cons_self)]
      exact if_neg hr
    have hreg : m₁.reg base = m.reg base := by
      rw [hm₁, Op.exec, reg_setReg hr, if_neg hbr]
    have hrest := ih (m := m₁) hbase h0 fun i hi => by
      rw [hreg]
      exact h i (List.mem_cons_of_mem r hi)
    have hstep : runOps m ((r :: l).map fun i => .lw i (4 * i) base) =
        runOps m₁ (l.map fun i => .lw i (4 * i) base) := by
      rw [hm₁]
      rfl
    rw [hstep, hrest, hreg]
    rw [hx₁]
    congr 1
    funext i
    by_cases hil : i ∈ l
    · simp [hil]
    · by_cases hir : i = r
      · subst hir
        simp [hil]
      · simp [hil, hir]

end

section

variable {L : Type} {code : L → Option (List (Instr L))} {place : L → Word}

/-- A program leaves in one way, if no two labels are at the same place. -/
theorem Goes.unique (hplace : Function.Injective place) {is : List (Instr L)} {m m₁ m₂ : Machine}
    {e₁ e₂ : Exit L} (h₁ : Goes code place is m e₁ m₁) (h₂ : Goes code place is m e₂ m₂) :
    e₁ = e₂ ∧ m₁ = m₂ := by
  induction h₁ with
  | leave hexec hgoto hjump =>
    cases h₂ with
    | leave hexec' _ _ =>
      obtain ⟨rfl, rfl⟩ := Prod.mk.inj (Option.some.inj (hexec.symm.trans hexec'))
      exact ⟨rfl, rfl⟩
    | @goto _ _ _ _ _ _ l hexec' hcode _ =>
      obtain ⟨rfl, -⟩ := Prod.mk.inj (Option.some.inj (hexec.symm.trans hexec'))
      rw [hgoto l rfl] at hcode
      cases hcode
    | @jump _ _ _ _ _ _ l hexec' _ _ =>
      obtain ⟨rfl, -⟩ := Prod.mk.inj (Option.some.inj (hexec.symm.trans hexec'))
      exact absurd rfl (hjump _)
  | goto hexec hcode _ ih =>
    cases h₂ with
    | leave hexec' hgoto _ =>
      obtain ⟨rfl, -⟩ := Prod.mk.inj (Option.some.inj (hexec.symm.trans hexec'))
      rw [hgoto _ rfl] at hcode
      cases hcode
    | goto hexec' hcode' h =>
      obtain ⟨hl, rfl⟩ := Prod.mk.inj (Option.some.inj (hexec.symm.trans hexec'))
      cases hl
      obtain rfl := Option.some.inj (hcode.symm.trans hcode')
      exact ih h
    | jump hexec' _ _ =>
      obtain ⟨hl, -⟩ := Prod.mk.inj (Option.some.inj (hexec.symm.trans hexec'))
      cases hl
  | jump hexec hcode _ ih =>
    cases h₂ with
    | leave hexec' _ hjump =>
      obtain ⟨rfl, -⟩ := Prod.mk.inj (Option.some.inj (hexec.symm.trans hexec'))
      exact absurd rfl (hjump _)
    | goto hexec' _ _ =>
      obtain ⟨hl, -⟩ := Prod.mk.inj (Option.some.inj (hexec.symm.trans hexec'))
      cases hl
    | jump hexec' hcode' h =>
      obtain ⟨hl, rfl⟩ := Prod.mk.inj (Option.some.inj (hexec.symm.trans hexec'))
      obtain rfl := hplace (Exit.jump.inj hl)
      obtain rfl := Option.some.inj (hcode.symm.trans hcode')
      exact ih h

end

-- ---------------------------------------------------------------------------
-- Traps
-- ---------------------------------------------------------------------------

theorem trap_status (m : Machine) (cause tval : Word) {i : Nat} :
    (m.trap cause tval).status i =
      if i = SPP then !m.user else if i = SIE then false else if i = SPIE then m.status SIE
      else m.status i := by
  show (setBit (setBit (setBit (m.csr .sstatus) SPIE (m.status SIE)) SIE false) SPP
    (!m.user)).getLsbD i = _
  rw [getLsbD_setBit _ (by decide), getLsbD_setBit _ (by decide), getLsbD_setBit _ (by decide)]
  rfl

theorem sret_status (m : Machine) {i : Nat} :
    m.sret.status i =
      if i = SPP then false else if i = SPIE then true else if i = SIE then m.status SPIE
      else m.status i := by
  show (Function.update m.csr .sstatus (setBit (setBit (setBit (m.csr .sstatus) SIE
    (m.status SPIE)) SPIE true) SPP false) .sstatus).getLsbD i = _
  rw [Function.update_self, getLsbD_setBit _ (by decide), getLsbD_setBit _ (by decide),
    getLsbD_setBit _ (by decide)]
  rfl

/-- **A trap that is returned from**, with `sstatus` and `sepc` as the trap set them. -/
theorem sret_trap {m m' : Machine} {cause tval : Word}
    (hst : m'.csr .sstatus = (m.trap cause tval).csr .sstatus) (hpc : m'.csr .sepc = m.pc) :
    m'.sret.pc = m.pc ∧ m'.sret.user = m.user ∧
      ∀ i, i ≠ SPIE → i ≠ SPP → m'.sret.status i = m.status i := by
  have hbit : ∀ i, m'.status i = (m.trap cause tval).status i := fun i => by
    unfold Machine.status
    rw [hst]
  refine ⟨hpc, ?_, fun i hspie hspp => ?_⟩
  · show (!m'.status SPP) = _
    rw [hbit, trap_status, if_pos rfl, Bool.not_not]
  · rw [sret_status, if_neg hspp, if_neg hspie]
    by_cases hsie : i = SIE
    · rw [if_pos hsie, hbit, trap_status, if_neg (by decide), if_neg (by decide), if_pos rfl, hsie]
    · rw [if_neg hsie, hbit, trap_status, if_neg hspp, if_neg hsie, if_neg hspie]

end Mos.Lib.Riscv
