import Mos.Fs.Tree
import Mos.User.FsLife

/-!
# MOS on RISC-V — the file tree while the server serves

The tree of files in every state of a run of the server with its clients.

Main results:

* `tree_intact` — no block is shared in a run whose steps are good, and no page that a client
  may store to holds a file, a table or a block of the system.
-/

namespace Mos.User

open Mos.Fs Mos.Kern Mos.Lib

variable {s₀ s : FsLife}

/-- **The tree stays whole.** Whatever the clients send, in whatever order, no block is named twice
by the files that a path can reach, each block that is named is in use, on the disk and none of
the system, and a client has no page to store to that the server follows. -/
theorem tree_intact (h₀ : FsLife.Start s₀) (h : LifeReach FsLife.Good s₀ s) :
    Unshared s.tab.serv.fs ∧ OffSystem s.tab.serv.fs ∧
      ∀ c, s.lent c = some false → ¬ Followed s.tab.serv.fs c := by
  obtain ⟨use, hinv⟩ := h.inv h₀
  refine ⟨hinv.layout.unshared, hinv.layout.offSystem, fun c hlent hfollowed => ?_⟩
  exact hinv.layout.followed hfollowed (hinv.lent c hlent).2

/-- A client has the server write all its blocks back. -/
theorem tree_intact_sync : ∃ fs s, fsInit (emptyCache rootDisk fun _ => true) = .ok ((), fs) ∧
    LifeReach FsLife.Good (.init fs) s ∧ s.pc = .reply [⟨1, 0, .none⟩] none ∧
    Unshared s.tab.serv.fs ∧ OffSystem s.tab.serv.fs ∧
      ∀ c, s.lent c = some false → ¬ Followed s.tab.serv.fs c := by
  obtain ⟨fs, s, hinit, hstep, hpc⟩ :
      ∃ fs s, fsInit (emptyCache rootDisk fun _ => true) = .ok ((), fs) ∧
        (FsLife.init fs).step (.request 1 .sync) = some s ∧ s.pc = .reply [⟨1, 0, .none⟩] none :=
    ⟨_, _, rfl, rfl, rfl⟩
  have hfine : FsLife.Good (.init fs) (.request 1 .sync) := trivial
  have hreach : LifeReach FsLife.Good (.init fs) s := .step .refl hfine hstep
  exact ⟨fs, s, hinit, hreach, hpc, tree_intact (FsLife.init_start hinit) hreach⟩

end Mos.User
