import Mos.Kern.Context
import Mos.Kern.EnvIds
import Mos.Kern.SelfMap
import Mos.Lib.Program

/-!
# MOS on RISC-V — user programs on the kernel

A user program is a `Program` whose requests are its loads from the window of page tables
and its system calls; `user_panic` aborts it. The kernel answers them while the env of the
program runs. Between two requests anything may happen: ticks, faults, other envs, and what
the env itself stores or a handler of it does.

* `Asks.reach` — a request leads from one state of the kernel to a later one;
* `Asks.exec` — what a system call answers is what the kernel computed for it;
* `KernReach.slotIds` — bit 10 of the id of a live env is clear.
-/

namespace Mos.Kern

open Mos.Lib

theorem KernReach.trans {P : Kernel → KernOp → Prop} {k₀ k k' : Kernel} (h : KernReach P k₀ k)
    (h' : KernReach P k k') : KernReach P k₀ k' := by
  induction h' with
  | refl => exact h
  | step _ hop hrun ih => exact ih.step hop hrun

-- ---------------------------------------------------------------------------
-- Ids are not error codes
-- ---------------------------------------------------------------------------

/-- The ids of the live envs: below the count there is a clear bit, and the slot. -/
def SlotIds (k : Kernel) : Prop := ∀ e, k.Live e → (k.envs e).id % 2 ^ 11 < 2 ^ 10

theorem SlotIds.step {k k' : Kernel} {op : KernOp} (h : SlotIds k) (htable : TableInv k)
    (hrun : op.run k = .ok k') : SlotIds k' := by
  have hsame : ∀ x, k.Live x → (k'.envs x).ident = (k.envs x).ident → (k'.envs x).id % 2 ^ 11 < 2 ^ 10 :=
    fun x hx hident => by
      have hid : (k'.envs x).id = (k.envs x).id := congrArg Prod.fst hident
      rw [hid]
      exact h x hx
  have hmove := (KernOp.tableStep htable.cur hrun).step
  generalize op.event k = ev at hmove
  intro x hx
  cases hmove with
  | same quiet ident live => exact hsame x ((live x).mp hx) (ident x)
  | @lost e rest hl ident live =>
    have hx' := (live x).mp hx
    refine hsame x hx' (ident x ?_)
    rintro rfl
    exact ((htable.freeIff x).mp (by rw [hl]; exact List.mem_cons_self)).2 hx'
  | @alloc e asid parentId rest hl hlt hclear new born ident live =>
    by_cases hxe : x = e
    · have he : e < NENV := ((htable.freeIff e).mp (by rw [hl]; exact List.mem_cons_self)).1
      have hid : (k'.envs e).id = (mkenvid k e).1 := congrArg Prod.fst new
      have he' : e < 2 ^ 10 := he
      rw [hxe, hid, mkenvid_eq k he]
      omega
    · exact hsame x ((live x hxe).mp hx) (ident x hxe)
  | @free e alive dead ident live =>
    have hxe : x ≠ e := by
      rintro rfl
      exact dead hx
    exact hsame x ((live x hxe).mp hx) (ident x)

theorem KernReach.slotIds {P : Kernel → KernOp → Prop} {b : BootState} {k₀ k : Kernel}
    (hboot : b.boot = .ok k₀) (h : KernReach P k₀ k) : SlotIds k := by
  induction h with
  | refl =>
    intro e he
    obtain ⟨pm, p, hk⟩ := envInit_firstKernel hboot
    rw [hk] at he
    exact absurd rfl he
  | step hreach _ hrun ih => exact ih.step (hreach.tableInv (boot_idInv hboot).table) hrun

end Mos.Kern

namespace Mos.User

open Mos.Lib Mos.Kern

/-- What a user program asks for. -/
inductive UserReq where
  | tlbModEntry                -- `env->env_user_tlb_mod_entry`
  | load (va : Nat)            -- a word of `vpt` or `vpd`
  | setEnv (slot : Nat)        -- `env = envs + slot`
  | syscall (s : Syscall)

def UserReq.Answer : UserReq → Type
  | .tlbModEntry => Nat
  | .load _ => Nat
  | .setEnv _ => Unit
  | .syscall _ => Int

abbrev UserM := Program UserReq UserReq.Answer

abbrev UserEvent := Σ req : UserReq, req.Answer

def tlbModEntry : UserM Nat := Program.request UserReq.tlbModEntry

def load (va : Nat) : UserM Nat := Program.request (UserReq.load va)

def setEnv (slot : Nat) : UserM Unit := Program.request (UserReq.setEnv slot)

def syscall (s : Syscall) : UserM Int := Program.request (UserReq.syscall s)

/-- `panic_on(expr)`. -/
def panicOn (r : Int) : UserM Unit := if r ≠ 0 then .abort else .ret ()

/-- The env `a` comes to run, after whatever happened since. -/
structure Turn (a : Nat) (k k₁ : Kernel) : Prop where
  between : KernReach (fun _ _ => True) k k₁
  cur : k₁.curenv = some a
  same : (k₁.envs a).id = (k.envs a).id

theorem Turn.refl {a : Nat} {k : Kernel} (hcur : k.curenv = some a) : Turn a k k := ⟨.refl, hcur, rfl⟩

theorem Turn.trans {a : Nat} {k k₁ k₂ : Kernel} (h : Turn a k k₁) (h' : Turn a k₁ k₂) : Turn a k k₂ :=
  ⟨h.between.trans h'.between, h'.cur, h'.same.trans h.same⟩

/-- How the kernel answers the requests of the env `a`. The result of a system call is what
the env finds in `a0`. -/
inductive Asks (a : Nat) : Kernel → (req : UserReq) → req.Answer → Kernel → Prop where
  | tlbModEntry {k k₁ : Kernel} : Turn a k k₁ → Asks a k .tlbModEntry (k₁.envs a).userTlbModEntry k₁
  | load {k k₁ : Kernel} {va w : Nat} : Turn a k k₁ → userLoad k₁ va = some w → Asks a k (.load va) w k₁
  | setEnv {k k₁ : Kernel} {slot : Nat} : Turn a k k₁ → Asks a k (.setEnv slot) () k₁
  | syscall {k k₁ k' : Kernel} {tf : Trapframe} {s : Syscall} : Turn a k k₁ →
      (KernOp.syscall tf s).run k₁ = .ok k' → k'.curenv = some a →
      Asks a k (.syscall s) (toInt (k'.cpu.regs 10)) k'

variable {a : Nat} {k k' : Kernel}

theorem Asks.reach {req : UserReq} {x : req.Answer} (h : Asks a k req x k') :
    KernReach (fun _ _ => True) k k' := by
  cases h with
  | tlbModEntry hturn => exact hturn.between
  | load hturn _ => exact hturn.between
  | setEnv hturn => exact hturn.between
  | syscall hturn hrun _ => exact hturn.between.step trivial hrun

theorem runs_reach {α : Type} {p : UserM α} {tr : List UserEvent} {out : Option α}
    (h : p.Runs (Asks a) k tr out k') : KernReach (fun _ _ => True) k k' :=
  h.keeps (fun _ _ _ _ hk hasks => hk.trans hasks.reach) .refl

/-- The env may have waited longer for its turn. -/
theorem Asks.later {k₀ : Kernel} {req : UserReq} {x : req.Answer} (hturn : Turn a k₀ k) (h : Asks a k req x k') :
    Asks a k₀ req x k' := by
  cases h with
  | tlbModEntry h => exact .tlbModEntry (hturn.trans h)
  | load h hload => exact .load (hturn.trans h) hload
  | setEnv h => exact .setEnv (hturn.trans h)
  | syscall h hrun hcur => exact .syscall (hturn.trans h) hrun hcur

theorem runs_later {α : Type} {k₀ : Kernel} {p : UserM α} {tr : List UserEvent} {out : Option α}
    (hturn : Turn a k₀ k) (h : p.Runs (Asks a) k tr out k') : ∃ k'', p.Runs (Asks a) k₀ tr out k'' := by
  cases h with
  | ret => exact ⟨k₀, .ret k₀ _⟩
  | abort => exact ⟨k₀, .abort k₀⟩
  | ask hasks hrest => exact ⟨k', .ask (hasks.later hturn) hrest⟩

/-- A system call that returns answers with what the kernel computed. -/
theorem Asks.exec {s : Syscall} {r : Int} (h : Asks a k (.syscall s) r k') :
    ∃ k₁ res k₂, KernReach (fun _ _ => True) k k₁ ∧ k₁.curenv = some a ∧
      (∃ tf, s.exec { k₁ with tf := tf } a = .ok (res, k₂)) ∧ k'.envs = k₂.envs ∧
      ∀ v, res = some v → r = toInt (toWord v) := by
  cases h with
  | syscall hturn hrun _ =>
    obtain ⟨c, res, k₂, hc, hexec, hk'⟩ := run_syscall_slot hrun
    obtain rfl : a = c := Option.some.inj (hturn.cur.symm.trans hc)
    refine ⟨_, res, k₂, hturn.between, hturn.cur, ⟨_, hexec⟩, ?_, ?_⟩
    · rw [hk']
      cases res <;> rfl
    · rintro v rfl
      have hcpu : k'.cpu = k₂.tf.withA0 (toWord v) := by rw [hk']; rfl
      rw [hcpu]
      show toInt ((Function.update k₂.tf.regs 10 (toWord v) 10 : Nat) : Int) = _
      rw [Function.update_self]

/-- A system call made at once. -/
theorem Asks.of_exec {s : Syscall} {v : Int} {k₂ : Kernel} (hcur : k.curenv = some a)
    (hexec : s.exec { k with tf := zeroTrapframe.pastEcall } a = .ok (some v, k₂)) (hcur₂ : k₂.curenv = some a) :
    ∃ tf cpu, Asks a k (.syscall s) (toInt (toWord v)) { k₂ with tf := tf, cpu := cpu } ∧
      (KernOp.syscall zeroTrapframe s).run k = .ok { k₂ with tf := tf, cpu := cpu } := by
  obtain ⟨tf, cpu, hrun⟩ := run_syscall_ok zeroTrapframe hcur hexec
  refine ⟨tf, cpu, ?_, hrun⟩
  have hasks : Asks a k (.syscall s) _ _ := .syscall (Turn.refl hcur) hrun hcur₂
  obtain ⟨c, res, k₃, hc, hexec', hk'⟩ := run_syscall_slot hrun
  obtain rfl : a = c := Option.some.inj (hcur.symm.trans hc)
  rw [hexec] at hexec'
  cases hexec'
  have hcpu : cpu = k₂.tf.withA0 (toWord v) := congrArg Kernel.cpu hk'
  have ha0 : toInt (cpu.regs 10) = toInt (toWord v) := by
    rw [hcpu]
    show toInt ((Function.update k₂.tf.regs 10 (toWord v) 10 : Nat) : Int) = _
    rw [Function.update_self]
  rw [← ha0]
  exact hasks

end Mos.User
