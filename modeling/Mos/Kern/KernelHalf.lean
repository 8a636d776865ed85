import Mos.Kern.Progress

/-!
# MOS on RISC-V — the kernel half

Every directory has the same upper half: `env_setup_vm` copies it from the
template and the kernel's own directory, and no system call or page fault
reaches it. `Ordinary` names the steps of the runs this is about: permissions
are flags and nothing else, pages suffice, and no frame is mapped `2 ^ 16`
times.
-/

namespace Mos.Kern

open Mos.Lib

variable {b : BootState} {k₀ k : Kernel} {role₀ role : Nat → Role}

/-- Flags and nothing else: `perm` below `2 ^ 10`, and programs that are linked
below `UTOP`. -/
def SmallPerm : KernOp → Prop
  | .create binary _ => UserElf binary
  | .syscall _ (.memAlloc _ _ perm) => perm < 2 ^ 10
  | .syscall _ (.memMap _ _ _ _ perm) => perm < 2 ^ 10
  | .syscall _ (.ipcTrySend _ _ _ perm) => perm < 2 ^ 10
  | _ => True

/-- The `page_alloc` of `env_setup_vm` does not fail. -/
def SetupRoom (k : Kernel) : KernOp → Prop
  | .create _ _ => EnvRoom k
  | .syscall _ .exofork => EnvRoom k
  | _ => True

theorem MapSafe.of_small (h : KernelOk b k₀ role₀ k) (hb : Booted b k₀ role₀) {op : KernOp}
    (hsmall : SmallPerm op) (hroom : SetupRoom k op) : MapSafe k op := by
  obtain ⟨role, h, -⟩ := h
  cases op with
  | create binary priority => exact ⟨hsmall, hroom⟩
  | device _ | tick _ | fault _ | store _ _ => trivial
  | syscall tf s =>
    cases s with
    | exofork => exact hroom
    | memAlloc envid va perm =>
      intro pp pm ha
      have hfree := (h.alloc hb ha).1
      exact h.frame_of_perm (by simp [hfree]) (Nat.or_lt_two_pow hsmall (by decide))
    | memMap srcid srcva dstid dstva perm =>
      intro cur src pp p hcur hva hs hlook
      have hdata := h.lookup (h.envid2env_live hcur hs) hva hlook
      exact h.frame_of_perm (by simp [hdata]) (Nat.or_lt_two_pow hsmall (by decide))
    | ipcTrySend envid value srcva perm =>
      intro cur pp p hcur hva hlook
      have hdata := h.lookup (h.cur cur hcur).1 hva hlook
      exact h.frame_of_perm (by simp [hdata]) (Nat.or_lt_two_pow (by decide) (readable_lt hsmall))
    | _ => trivial

end Mos.Kern
