import Mos.Fs.Truncate

/-!
# MOS on RISC-V — the tree of files and the layout

What the layout of the file system (`Layout`) means for the tree of files that a path can
reach, and for the blocks that the server follows in it.

* `Layout.unshared`, `Layout.offSystem` — what `file_truncate` relies on;
* `Layout.followed` — none of the blocks that the server follows is of data.
-/

namespace Mos.Fs

open Mos.Lib Mos.Kern

variable {st : FsState} {use : Uses} {b c i j : Nat}

-- ---------------------------------------------------------------------------
-- What the server follows
-- ---------------------------------------------------------------------------

/-- What is of the system, of a directory or a table, is not loose. -/
theorem not_loose {u : Use} (hu : use c = some u) (hne : u ≠ .data) : ¬ Loose (use c) := by
  rw [hu]
  rintro (hnone | hdata)
  · cases hnone
  · exact hne (Option.some.inj hdata)

theorem FileSlot.not_loose (hf : FileSlot use b i) (hsuper : use 1 = some .system) : ¬ Loose (use b) := by
  cases hf with
  | root => exact Fs.not_loose hsuper nofun
  | entry hdir => exact Fs.not_loose hdir nofun

/-- A path that leads to a file of a name may lead to one of any. -/
theorem InTree.found (h : InTree st b i) : Found st b i := by
  induction h with
  | root => exact .root
  | entry _ hdir hn hd hk _ ih => exact .entry ih hdir hn hd hk

/-- What the server follows: the super block, the bitmap, the files and the tables. -/
inductive Followed (st : FsState) : Nat → Prop where
  | system {c : Nat} (h : st.isMeta c) : Followed st c
  | file {b i : Nat} (h : InTree st b i) : Followed st b
  | table {b i : Nat} (h : InTree st b i) (hne : st.word b (i + W_INDIRECT) ≠ 0) :
      Followed st (st.word b (i + W_INDIRECT)).toNat

namespace Layout

variable (h : Layout st use)
include h

theorem treePtr (hp : TreePtr st c j) : ∃ u, Ptr st use c j u := by
  obtain ⟨b, i, hf, hp⟩ := hp
  have hslot := hf.found.slot h
  cases hp with
  | direct hk => exact ⟨_, .direct hslot hk⟩
  | table => exact ⟨_, .table hslot⟩
  | entry hne hlo hhi => exact ⟨_, .entry (h.ptrNamed (.table hslot) hne) hlo hhi⟩

theorem metaUse (hc : st.isMeta c) : use c = some .system := by
  rcases hc with rfl | ⟨d, hd, rfl⟩
  · exact h.superUse
  · exact h.bitmapUse d hd

theorem unshared : Unshared st where
  ready := h.ready
  size := h.size
  named c j hp hne := by
    obtain ⟨u, hp⟩ := h.treePtr hp
    exact h.inUse _ u (h.ptrNamed hp hne)
  once c j c' j' hp hp' hne heq := by
    obtain ⟨u, hp⟩ := h.treePtr hp
    obtain ⟨u', hp'⟩ := h.treePtr hp'
    exact h.once c j u c' j' u' hp hp' hne heq

theorem offSystem : OffSystem st := by
  intro c j hp hne hmeta
  obtain ⟨u, hp⟩ := h.treePtr hp
  have huse := h.ptrNamed hp hne
  rw [h.metaUse hmeta] at huse
  exact hp.ne_system (Option.some.inj huse).symm

/-- What the server follows is never of data. -/
theorem followed (hc : Followed st c) : ¬ Loose (use c) := by
  cases hc with
  | system hmeta => exact not_loose (h.metaUse hmeta) nofun
  | file hf => exact (hf.found.slot h).not_loose h.superUse
  | table hf hne => exact not_loose (h.ptrNamed (.table (hf.found.slot h)) hne) nofun

end Layout

end Mos.Fs
