import Mos.Fs.LastsRun
import Mos.Fs.Tree

/-!
# MOS on RISC-V — a new server on the disk of the old one

What `fs_sync` leaves on the disk, and what `fs_init` of the next server makes of it. The
system blocks, the directories and the tables are the same as in the cache of the old server
(`Rests.restart`), so its files are too. Data that a client stored to a page may be lost, unless the
page is dirty for the server.

* `fsSync_back` — after `fs_sync`, a block is as on the disk, or its page is stale;
* `fsInit_rests` — `fs_init` leaves no page stale;
* `Rests.restart` — the next server starts.
-/

namespace Mos.Fs

open Mos.Lib Mos.Kern

variable {st st₁ st' : FsState} {use use' : Uses} {b c d i j n : Nat}

-- ---------------------------------------------------------------------------
-- fs_sync
-- ---------------------------------------------------------------------------

/-- The disk has the block, or has lost it. -/
def Back (st : FsState) (d : Nat) : Prop := st.contents d = st.disk d ∨ st.Stale d

theorem syncBlock_back (hrun : syncBlock b st = .ok ((), st')) (hd : d = b ∨ Back st d) : Back st' d := by
  unfold syncBlock at hrun
  rw [run_bind (blockIsDirty_eq b st)] at hrun
  split_ifs at hrun with hdirty
  · obtain ⟨hb, rfl⟩ := writeBlock_ok hrun
    by_cases hdb : d = b
    · subst hdb
      refine Or.inl ?_
      rw [setDisk_contents hb, FsState.setDisk_self, contents_mapped hb]
    · refine (hd.resolve_left hdb).imp (fun hsame => ?_) fun ⟨p, hp, hclean, hne⟩ => ⟨p, hp, hclean, ?_⟩
      · rw [setDisk_contents hb, FsState.setDisk_of_ne _ hdb]
        exact hsame
      · rw [FsState.setDisk_of_ne _ hdb]
        exact hne
  · cases hrun
    rcases hd with rfl | hback
    · cases hp : st.cache d with
      | none => exact Or.inl (contents_unmapped hp)
      | some p =>
        have hclean : p.dirty = false := by
          unfold FsState.isDirty at hdirty
          rw [hp] at hdirty
          simpa using hdirty
        by_cases hsame : p.words = st.disk d
        · refine Or.inl ?_
          rw [contents_mapped (by rw [hp]; rfl), st.words_of_cache hp]
          exact hsame
        · exact Or.inr ⟨p, hp, hclean, hsame⟩
    · exact hback

theorem fsSync_back (h : Ready st) (hrun : fsSync st = .ok ((), st')) :
    Ready st' ∧ st'.contents = st.contents ∧ st'.cache = st.cache ∧ ∀ d < st.nblocks, Back st' d := by
  unfold fsSync at hrun
  rw [run_bind h.sNblocks] at hrun
  refine forM_range_inv (fun m s => Ready s ∧ s.contents = st.contents ∧ s.cache = st.cache ∧ ∀ d < m, Back s d) _
    ⟨h, rfl, rfl, nofun⟩ ?_ hrun
  rintro m - s s' ⟨hready, hcontents, hcache, hback⟩ hbody
  have hsync := hbody
  unfold syncBlock at hsync
  rw [run_bind (blockIsDirty_eq m s)] at hsync
  have hback' : ∀ d < m + 1, Back s' d := fun d hd =>
    syncBlock_back hbody ((Nat.lt_succ_iff_lt_or_eq.mp hd).symm.imp_right (hback d))
  split_ifs at hsync
  · obtain ⟨hready', hsame⟩ := writeBlock_contents hready hsync
    obtain ⟨-, rfl⟩ := writeBlock_ok hsync
    exact ⟨hready', hsame.trans hcontents, hcache, hback'⟩
  · cases hsync
    exact ⟨hready, hcontents, hcache, hback'⟩

theorem syncBlock_run (b : Nat) (st : FsState) : ∃ st', syncBlock b st = .ok ((), st') := by
  unfold syncBlock
  rw [run_bind (blockIsDirty_eq b st)]
  split_ifs with hdirty
  · exact ⟨_, writeBlock_mapped (isDirty_isSome hdirty)⟩
  · exact ⟨_, rfl⟩

/-- `fs_sync` comes to its end. -/
theorem fsSync_run (h : Ready st) : ∃ st', fsSync st = .ok ((), st') := by
  have hloop : ∀ (bs : List Nat) (s : FsState), ∃ s', bs.forM syncBlock s = .ok ((), s') := by
    intro bs
    induction bs with
    | nil => exact fun s => ⟨s, rfl⟩
    | cons b bs ih =>
      intro s
      obtain ⟨s₁, hsync⟩ := syncBlock_run b s
      obtain ⟨s₂, hrest⟩ := ih s₁
      refine ⟨s₂, ?_⟩
      rw [List.forM_eq_forM] at hrest ⊢
      rw [List.forM_cons, run_bind hsync]
      exact hrest
  unfold fsSync
  rw [run_bind h.sNblocks]
  exact hloop _ st

-- ---------------------------------------------------------------------------
-- file_dirty
-- ---------------------------------------------------------------------------

theorem fileBlockWalk_error {f : Nat} {alloc : Bool} {e : Int}
    (hrun : fileBlockWalk f n alloc st = .ok (.error e, st')) : e < 0 := by
  unfold fileBlockWalk at hrun
  split_ifs at hrun
  · cases hrun
  · obtain ⟨r, st₁, -, hrest⟩ := run_bind_eq_ok.mp hrun
    split_ifs at hrest with hr
    · cases hrest
      exact hr
    · obtain ⟨_, _, -, hrest⟩ := run_bind_eq_ok.mp hrest
      obtain ⟨_, _, -, hend⟩ := run_bind_eq_ok.mp hrest
      cases hend
  · cases hrun
    decide

/-- The block that `file_dirty` finds is dirty when it returns no error. -/
theorem fileDirty_dirties (h : Layout st use) (hf : FileAt st use b i) {offset : Nat} {r : Int}
    (hrun : fileDirty (addr b i) offset st = .ok (r, st')) (hr : ¬ r < 0) :
    ∃ d, st.Names b i (offset / BY2BLK) d ∧ st'.isDirty d = true := by
  unfold fileDirty fileMapBlock at hrun
  obtain ⟨r₁, st₁, hmap, hrest⟩ := run_bind_eq_ok.mp hrun
  obtain ⟨r₂, st₂, hwalk, hmap⟩ := run_bind_eq_ok.mp hmap
  obtain ⟨use₂, h₂, -, hsame, htable, hslot⟩ := (fileBlockWalk_reads h hf (offset / BY2BLK)).ok hwalk
  cases hs : st.slot b i (offset / BY2BLK) with
  | none =>
    rw [hs] at hslot
    obtain ⟨e, rfl⟩ := hslot
    cases hmap
    cases hrest
    exact absurd (fileBlockWalk_error hwalk) hr
  | some p =>
    obtain ⟨b', j⟩ := p
    rw [hs] at hslot
    obtain ⟨rfl, hb⟩ := hslot
    have hp := h.slot_ptr hf.slot hs
    obtain ⟨v, hv⟩ := h.ptrUse hp
    have hload := h₂.loadAt (hsame ▸ hv) hb hp.lt
    simp only at hmap
    rw [run_bind (needBlock_eq hload)] at hmap
    by_cases hzero : st₂.word b' j = 0
    · rw [if_pos hzero, if_pos (by decide)] at hmap
      cases hmap
      cases hrest
      exact absurd (by decide) hr
    · rw [if_neg hzero, if_neg (by decide), run_bind hload] at hmap
      cases hmap
      have hword : st₁.word b' j = st.word b' j := by
        unfold FsState.word
        rw [htable.contents]
      refine ⟨(st₁.word b' j).toNat, ⟨b', j, hs, by rw [← hword]; exact hzero, by rw [hword]⟩, ?_⟩
      simp only at hrest
      unfold dirtyBlock at hrest
      rw [run_get] at hrest
      generalize (st₁.word b' j).toNat = d at hrest ⊢
      cases hc : st₁.cache d with
      | none =>
        simp only [hc] at hrest
        cases hrest
        exact absurd (by decide) hr
      | some p =>
        simp only [hc] at hrest
        split_ifs at hrest with hdirty
        · cases hrest
          unfold FsState.isDirty
          rw [hc]
          exact hdirty
        · cases hrest
          unfold FsState.isDirty
          rw [FsState.setPage_self]

-- ---------------------------------------------------------------------------
-- The next server
-- ---------------------------------------------------------------------------

/-- What a new server on the same disk relies on. -/
structure Rests (st : FsState) (use : Uses) : Prop where
  layout : Layout st use
  stale : ∀ d, st.Stale d → Loose (use d)
  magic : st.word 1 0 = FS_MAGIC
  boot : Loose (use 0)
  bootUsed : ¬ st.isFree 0
  rest : st.nblocks % BIT2BLK ≠ 0

/-- What the layout says of a block, the new server finds, and what was written back. -/
structure SameSystem (use : Uses) (st st' : FsState) : Prop where
  layout : Layout st' use
  nblocks : st'.nblocks = st.nblocks
  isFree : ∀ c, st'.isFree c ↔ st.isFree c
  contents : ∀ d, ¬ Loose (use d) → st'.contents d = st.contents d
  saved : ∀ d < st.nblocks, d ≠ 0 → ¬ st.Stale d → st'.contents d = st.contents d

namespace Rests

variable (h : Rests st use)
include h

theorem pos : 0 < st.nblocks := by
  refine Nat.pos_of_ne_zero fun hzero => h.rest ?_
  rw [hzero]
  rfl

theorem onDisk (hback : ∀ d < st.nblocks, Back st d) (hd : ¬ Loose (use d)) : st.disk d = st.contents d := by
  cases hu : use d with
  | none => exact absurd (Or.inl hu) hd
  | some u =>
    rcases hback d (h.layout.inUse d u hu).1 with hsame | hstale
    · exact hsame.symm
    · exact absurd (h.stale d hstale) hd

theorem bitmap (hc : c < st.nblocks) : ¬ Loose (use (bitmapBlock (c >>> 5))) := by
  rw [bitmapBlock_shift]
  exact not_loose (h.layout.bitmapUse c hc) nofun

theorem super : ¬ Loose (use 1) := not_loose h.layout.superUse nofun

/-- The bits on the disk are those of the cache. -/
theorem diskBits (hback : ∀ d < st.nblocks, Back st d) (hc : c < st.nblocks) :
    (superRead st.disk).diskBits.isSet c ↔ st.bits.isSet c := by
  have hword : (superRead st.disk).diskBits (c >>> 5) = st.bits (c >>> 5) := by
    show st.disk (bitmapBlock (c >>> 5)) (Fin.ofNat 1024 (c >>> 5)) = _
    rw [h.onDisk hback (h.bitmap hc), contents_mapped (h.layout.ready.page hc)]
    rfl
  unfold Bitmap.isSet
  rw [hword]

theorem diskSize (hback : ∀ d < st.nblocks, Back st d) : (st.disk 1 1).toNat = st.nblocks := by
  rw [h.onDisk hback h.super, contents_mapped h.layout.ready.superPage]
  rfl

theorem formatted (hback : ∀ d < st.nblocks, Back st d) : Formatted (superRead st.disk) := by
  have hn : (superRead st.disk).nblocks = st.nblocks := h.diskSize hback
  have hpos := h.pos
  have hbits : reserved st.nblocks = st.nblocks / BIT2BLK + 3 := by
    rw [reserved, (nbitblock_eq_iff hpos).mpr h.rest]
    omega
  have hrest := h.rest
  have husedBy : ∀ k ≤ st.nblocks / BIT2BLK, use (k + 2) = some .system := by
    intro k hk
    have hlt : k * BIT2BLK < st.nblocks := by
      simp only [BIT2BLK, BY2BLK, BY2PG] at hk hrest ⊢
      omega
    have huse := h.layout.bitmapUse (k * BIT2BLK) hlt
    rw [Nat.mul_div_cancel _ (by decide)] at huse
    exact huse
  constructor
  · rw [hn, hbits]
    exact (h.layout.inUse _ _ (husedBy _ (Nat.le_refl _))).1
  · intro c hc hset
    rw [hn, hbits] at hc
    have hlast := (h.layout.inUse _ _ (husedBy _ (Nat.le_refl _))).1
    have hlt : c < st.nblocks := by omega
    have hfree : st.isFree c := ⟨hlt, (h.diskBits hback hlt).mp hset⟩
    obtain rfl | rfl | ⟨k, rfl⟩ : c = 0 ∨ c = 1 ∨ ∃ k, c = k + 2 := by
      by_cases hlow : c < 2
      · omega
      · exact Or.inr (Or.inr ⟨c - 2, by omega⟩)
    · exact h.bootUsed hfree
    · exact (h.layout.inUse _ _ h.layout.superUse).2 hfree
    · exact (h.layout.inUse _ _ (husedBy k (by omega))).2 hfree

/-- **A new server.** It starts on the disk, and sees the system, the directories and the tables as they were. -/
theorem restart (hback : ∀ d < st.nblocks, Back st d) {mem : Nat → Bool}
    (hmem : ∀ n < st.nblocks / BIT2BLK + 4, mem n = true) :
    ∃ st', fsInit (emptyCache st.disk mem) = .ok ((), st') ∧ SameSystem use st st' ∧
      Asked (emptyCache st.disk mem) st' := by
  have hn := h.diskSize hback
  have hmagic : st.disk 1 0 = FS_MAGIC := by
    rw [h.onDisk hback h.super]
    exact h.magic
  obtain ⟨st', hinit, hst, hasked⟩ := fsInit_run hmagic (by rw [hn]; exact h.layout.size) (h.formatted hback)
    (by rw [hn]; exact h.rest) (by rw [hn]) hmem
  have hcontents : ∀ d, ¬ Loose (use d) → st'.contents d = st.contents d := by
    intro d hd
    rw [hst.contents d (by rintro rfl; exact hd h.boot), h.onDisk hback hd]
  have hfree : ∀ c, st'.isFree c ↔ st.isFree c := by
    intro c
    rw [hst.bits, hn]
    exact and_congr_right fun hlt => h.diskBits hback hlt
  have hsaved : ∀ d < st.nblocks, d ≠ 0 → ¬ st.Stale d → st'.contents d = st.contents d := by
    intro d hd hzero hstale
    rw [hst.contents d hzero]
    exact ((hback d hd).resolve_right hstale).symm
  refine ⟨st', hinit, ⟨?_, hst.size.trans hn, hfree, hcontents, hsaved⟩, hasked⟩
  refine h.layout.congr hst.ready (hst.size.trans hn) (fun c => (hfree c).mp) (fun b j htracked => ?_) ?_
  · unfold FsState.word
    rw [hcontents b]
    rcases htracked with ⟨i, hf, -⟩ | ⟨u, hu, -⟩
    · exact hf.not_loose h.layout.superUse
    · exact not_loose hu nofun
  · unfold FsState.word
    rw [hcontents 1 h.super]
    exact h.layout.rootDir

end Rests

-- ---------------------------------------------------------------------------
-- Files
-- ---------------------------------------------------------------------------

theorem Ptr.not_loose {u : Use} (hp : Ptr st use b j u) (hsuper : use 1 = some .system) : ¬ Loose (use b) := by
  cases hp with
  | direct hf _ => exact hf.not_loose hsuper
  | table hf => exact hf.not_loose hsuper
  | entry htable => exact Fs.not_loose htable nofun

namespace SameSystem

variable (hs : SameSystem use st st') (h : Layout st use)
include hs

theorem word (hd : ¬ Loose (use d)) (j : Nat) : st'.word d j = st.word d j := by
  unfold FsState.word
  rw [hs.contents d hd]

theorem fileName (hd : use d = some .dir) (i : Nat) : st'.fileName d i = st.fileName d i := by
  refine fileName_congr fun m _ => ?_
  unfold FsState.byte
  rw [hs.word (not_loose hd nofun)]

include h

theorem field (hf : FileSlot use b i) (k : Nat) : st'.word b (i + k) = st.word b (i + k) :=
  hs.word (hf.not_loose h.superUse) _

theorem isDir (hf : FileSlot use b i) : st'.isDir b i = st.isDir b i := by
  unfold FsState.isDir
  rw [hs.field h hf]

theorem dirBlocks (hf : FileSlot use b i) : st'.dirBlocks b i = st.dirBlocks b i := by
  unfold FsState.dirBlocks
  rw [hs.field h hf]

theorem names (hf : FileSlot use b i) (n d : Nat) : st'.Names b i n d ↔ st.Names b i n d := by
  have hslot : st'.slot b i n = st.slot b i n := by
    unfold FsState.slot
    rw [hs.field h hf]
  unfold FsState.Names
  rw [hslot]
  refine exists_congr fun b' => exists_congr fun j => and_congr_right fun hs' => ?_
  rw [hs.word ((h.slot_ptr hf hs').not_loose h.superUse)]

/-- The same files can be reached. -/
theorem inTree : InTree st' b i ↔ InTree st b i := by
  constructor
  · intro hf
    induction hf with
    | root => exact .root
    | entry _ hdir hn hd hk hname ih =>
      have hslot := ih.found.slot h
      rw [hs.isDir h hslot] at hdir
      rw [hs.dirBlocks h hslot] at hn
      rw [hs.names h hslot] at hd
      have huse := h.names_use hslot hd
      rw [hdir] at huse
      rw [hs.fileName huse] at hname
      exact .entry ih hdir hn hd hk hname
  · intro hf
    induction hf with
    | root => exact .root
    | entry hf hdir hn hd hk hname ih =>
      have hslot := hf.found.slot h
      have huse := h.names_use hslot hd
      rw [hdir] at huse
      rw [← hs.isDir h hslot] at hdir
      rw [← hs.dirBlocks h hslot] at hn
      rw [← hs.names h hslot] at hd
      rw [← hs.fileName huse] at hname
      exact .entry ih hdir hn hd hk hname

theorem sameFields (htree : DirTree st) : SameFields (InTree st) st st' where
  place := htree.walkTree.place
  field b i k hp _ _ := by
    rcases hp with ⟨rfl, rfl⟩ | ⟨⟨b', i', n, hf, hdir, -, hd⟩, k', hk', rfl⟩
    · exact hs.field h .root k
    · have huse := h.names_use (hf.found.slot h) hd
      rw [hdir] at huse
      exact hs.field h (.entry huse hk') k
  table t j ht _ := by
    obtain ⟨b, i, hf, hdir, hlt, rfl⟩ := ht
    obtain ⟨d, b', j', hslot, -⟩ := htree.attached b i NDIRECT hf hdir hlt
    have hne : st.word b (i + W_INDIRECT) ≠ 0 := by
      unfold FsState.slot at hslot
      rw [if_neg (Nat.lt_irrefl _)] at hslot
      split_ifs at hslot with hc
      exact hc.2
    exact hs.word (not_loose (h.ptrNamed (.table (hf.found.slot h)) hne) nofun) j

/-- Paths lead where they led. -/
theorem walkPath (htree : DirTree st) {path : List Nat} (hpath : ∀ c ∈ path, c ≠ 0) :
    (∃ st₁, walkPath path st' = .ok (st.resolve none 1 2 (parts slash path), st₁)) ∨
      (Fs.walkPath path st' = .error .kernelPanic ∧ ∃ n, st'.mem n = false) := by
  have hfields := hs.sameFields h htree
  have hwalk := hfields.tree htree.walkTree hs.layout.ready hs.nblocks hs.isFree
  have hruns := hwalk.walkPath_runs hpath
  cases hrun : Fs.walkPath path st' with
  | error e =>
    obtain ⟨rfl, hmem⟩ := hruns.error hrun
    exact Or.inr ⟨rfl, hmem⟩
  | ok r =>
    obtain ⟨w, st₁⟩ := r
    obtain ⟨_, -, -, rfl⟩ := hruns.ok hrun
    refine Or.inl ⟨st₁, ?_⟩
    rw [hfields.resolve htree.walkTree .root none fun name hname => ne_nil_of_mem_parts hname]

end SameSystem

-- ---------------------------------------------------------------------------
-- fs_init
-- ---------------------------------------------------------------------------

/-- A state of `fs_init`, each page of which was stored to. -/
structure EarlyDirty (set : Bool) (S : Nat → Prop) (st : FsState) : Prop where
  early : Early set S st
  dirty : ∀ d p, st.cache d = some p → p.dirty = true

namespace EarlyDirty

variable {set : Bool} {S T : Nat → Prop}

theorem mono (h : EarlyDirty set S st) (hT : ∀ c, T c ↔ S c) : EarlyDirty set T st := ⟨h.early.mono hT, h.dirty⟩

theorem flag (h : EarlyDirty set S st) (set' : Bool) : EarlyDirty set' S { st with super := set' } :=
  ⟨⟨rfl, h.early.bitmap, h.early.cached⟩, h.dirty⟩

theorem setPage (h : EarlyDirty set S st) (mem : Nat → Bool) (b : Nat) (ws : Block) :
    EarlyDirty set (fun c => S c ∨ c = b) ((st.withMem mem).setPage b (some ⟨ws, true⟩)) := by
  refine ⟨h.early.setPage mem b _, fun d p hp => ?_⟩
  by_cases hd : d = b
  · rw [hd, FsState.setPage_self] at hp
    cases hp
    rfl
  · rw [FsState.setPage_of_ne _ hd] at hp
    exact h.dirty d p hp

theorem unmap (h : EarlyDirty set S st) : EarlyDirty set (fun c => S c ∧ c ≠ b) (st.setPage b none) := by
  refine ⟨h.early.unmap, fun d p hp => ?_⟩
  by_cases hd : d = b
  · rw [hd, FsState.setPage_self] at hp
    cases hp
  · rw [FsState.setPage_of_ne _ hd] at hp
    exact h.dirty d p hp

theorem readBlock (h : EarlyDirty set S st) (hsuper : set = true → S 1) {isnew : Bool}
    (hrun : readBlock b st = .ok (isnew, st')) :
    EarlyDirty set (fun c => S c ∨ c = b) st' ∧ ∀ c, S c → st'.words c = st.words c := by
  obtain ⟨hearly, hwords⟩ := h.early.readBlock hsuper hrun
  refine ⟨⟨hearly, ?_⟩, hwords⟩
  have hexists : checkExists b st = .ok ((), st) := by
    have hread := hrun
    unfold Fs.readBlock at hread
    obtain ⟨_, _, hc, -⟩ := run_bind_eq_ok.mp hread
    obtain ⟨rfl, -⟩ := checkExists_ok (fun hs => (h.early.cached 1).mpr (hsuper (h.early.super ▸ hs))) hc
    exact hc
  have hused : checkUsed b st = .ok ((), st) := by
    unfold checkUsed
    rw [run_get, h.early.bitmap]
    rfl
  rcases readBlock_fetch hexists hused hrun with ⟨-, rfl⟩ | ⟨-, mem, rfl⟩
  · exact h.dirty
  · exact (h.setPage mem b _).dirty

theorem storeBlock (h : EarlyDirty set S st) (hb : S b) {ws : Block}
    (hrun : storeBlock b ws st = .ok ((), st')) :
    EarlyDirty set S st' ∧ ∀ c, st'.words c = if c = b then ws else st.words c := by
  obtain ⟨mem, rfl⟩ := storeBlock_ok hrun
  exact ⟨(h.setPage mem b ws).mono fun c => ⟨Or.inl, fun hc => hc.elim id fun hcb => hcb ▸ hb⟩,
    fun c => FsState.setPage_words ..⟩

theorem storeWord (h : EarlyDirty set S st) (hb : S b) (i : Fin 1024) (w : BitVec 32) :
    store b i w st = .ok ((), st.storeWord b i w) ∧ EarlyDirty set S (st.storeWord b i w) := by
  obtain ⟨hrun, -⟩ := h.early.storeWord hb i w
  refine ⟨hrun, (h.setPage st.mem b _).mono fun c => ⟨Or.inl, fun hc => hc.elim id fun hcb => hcb ▸ hb⟩⟩

theorem writeBlock (h : EarlyDirty set S st) (hrun : writeBlock b st = .ok ((), st')) :
    EarlyDirty set S st' ∧ st'.words = st.words := by
  refine ⟨⟨h.early.writeBlock hrun, ?_⟩, ?_⟩
  · obtain ⟨-, rfl⟩ := writeBlock_ok hrun
    exact h.dirty
  · obtain ⟨-, rfl⟩ := writeBlock_ok hrun
    rfl

/-- `strcpy` to the super block leaves the others alone. -/
theorem smash (h : EarlyDirty set S st) (h1 : S 1) :
    ∃ st', smashSuper st = .ok ((), st') ∧ EarlyDirty set S st' ∧ ∀ c, c ≠ 1 → st'.words c = st.words c := by
  unfold smashSuper
  obtain ⟨hs, h'⟩ := h.storeWord h1 0 0x53504f4f#32
  rw [run_bind hs, run_bind (h'.early.load h1 1)]
  obtain ⟨hs', h''⟩ := h'.storeWord h1 1
    (((st.storeWord 1 0 0x53504f4f#32).words 1 1 &&& 0xff000000#32) ||| 0x000a21#32)
  refine ⟨_, hs', h'', fun c hc => ?_⟩
  rw [FsState.storeWord_words, if_neg hc, FsState.storeWord_words, if_neg hc]

end EarlyDirty

theorem readSuper_dirty {disk : Nat → Block} {mem : Nat → Bool}
    (hrun : readSuper (emptyCache disk mem) = .ok ((), st')) :
    EarlyDirty true (· = 1) st' ∧ st'.words 1 0 = FS_MAGIC := by
  have hempty : EarlyDirty false (fun _ => False) (emptyCache disk mem) :=
    ⟨⟨rfl, rfl, fun c => ⟨nofun, False.elim⟩⟩, nofun⟩
  unfold readSuper at hrun
  obtain ⟨isnew, st₁, hread, hrun⟩ := run_bind_eq_ok.mp hrun
  obtain ⟨h₁, -⟩ := hempty.readBlock nofun hread
  obtain ⟨_, st₂, hset, hrun⟩ := run_bind_eq_ok.mp hrun
  cases hset
  have h₂ : EarlyDirty true (· = 1) { st₁ with super := true } := (h₁.flag true).mono fun c => by simp
  rw [run_bind (h₂.early.load rfl 0)] at hrun
  obtain ⟨_, st₃, hmagic, hrun⟩ := run_bind_eq_ok.mp hrun
  obtain ⟨hwrong, rfl⟩ := userPanicIf_ok hmagic
  rw [run_bind (h₂.early.sNblocks rfl)] at hrun
  obtain ⟨-, rfl⟩ := userPanicIf_ok hrun
  exact ⟨h₂, not_not.mp (of_decide_eq_false hwrong)⟩

/-- The super block is put back. -/
theorem checkWriteBlock_dirty (h : EarlyDirty true (· = 1) st) (hrun : checkWriteBlock st = .ok ((), st')) :
    EarlyDirty true (· < 2) st' ∧ st'.words 1 = st.words 1 := by
  unfold checkWriteBlock at hrun
  obtain ⟨_, st₁, hset, hrun⟩ := run_bind_eq_ok.mp hrun
  cases hset
  have h₁ : EarlyDirty false (· = 1) { st with super := false } := h.flag false
  obtain ⟨isnew, st₂, hread, hrun⟩ := run_bind_eq_ok.mp hrun
  obtain ⟨h₂, hwords₂⟩ := h₁.readBlock nofun hread
  obtain ⟨p, -, hp, hacc⟩ := access_mapped ((h₂.early.cached 1).mpr (Or.inl rfl))
  rw [run_bind hacc] at hrun
  obtain ⟨_, st₃, hcopy, hrun⟩ := run_bind_eq_ok.mp hrun
  obtain ⟨h₃, hwords₃⟩ := h₂.storeBlock (Or.inr rfl) hcopy
  obtain ⟨st₄, hsmash, h₄, hwords₄⟩ := h₃.smash (Or.inl rfl)
  rw [run_bind hsmash] at hrun
  obtain ⟨_, st₅, hwrite, hrun⟩ := run_bind_eq_ok.mp hrun
  obtain ⟨h₅, hwords₅⟩ := h₄.writeBlock hwrite
  obtain ⟨_, st₆, hunmap, hrun⟩ := run_bind_eq_ok.mp hrun
  cases hunmap
  have h₆ : EarlyDirty false (· = 0) (st₅.setPage 1 none) := h₅.unmap.mono fun c => by omega
  obtain ⟨isnew', st₇, hread', hrun⟩ := run_bind_eq_ok.mp hrun
  obtain ⟨h₇, hwords₇⟩ := h₆.readBlock nofun hread'
  obtain ⟨r, hr⟩ := h₇.early.isSmashed (Or.inr rfl)
  rw [run_bind hr] at hrun
  obtain ⟨_, st₈, hassert, hrun⟩ := run_bind_eq_ok.mp hrun
  obtain ⟨-, rfl⟩ := userAssert_ok hassert
  obtain ⟨p', -, hp', hacc'⟩ := access_mapped ((h₇.early.cached 0).mpr (Or.inl rfl))
  rw [run_bind hacc'] at hrun
  obtain ⟨_, st₉, hcopy', hrun⟩ := run_bind_eq_ok.mp hrun
  obtain ⟨h₉, hwords₉⟩ := h₇.storeBlock (Or.inr rfl) hcopy'
  obtain ⟨_, st₁₀, hwrite', hrun⟩ := run_bind_eq_ok.mp hrun
  obtain ⟨h₁₀, hwords₁₀⟩ := h₉.writeBlock hwrite'
  cases hrun
  refine ⟨(h₁₀.flag true).mono fun c => by omega, ?_⟩
  -- block 0 has the words of the super block in between
  have hzero : (st₅.setPage 1 none).words 0 = st₅.words 0 := by
    unfold FsState.words
    rw [FsState.setPage_of_ne _ (by decide)]
  calc st₁₀.words 1 = st₉.words 1 := by rw [hwords₁₀]
    _ = p'.words := by rw [hwords₉, if_pos rfl]
    _ = st₇.words 0 := hp'
    _ = st₅.words 0 := (hwords₇ 0 rfl).trans hzero
    _ = st₃.words 0 := by rw [hwords₅, hwords₄ 0 (by decide)]
    _ = p.words := by rw [hwords₃, if_pos rfl]
    _ = st₂.words 1 := hp
    _ = st.words 1 := hwords₂ 1 rfl

theorem readBitmap_dirty (h : EarlyDirty true (· < 2) st) (hrun : readBitmap st = .ok ((), st')) :
    (∀ d p, st'.cache d = some p → p.dirty = true) ∧ (st'.cache 0).isSome ∧ st'.words 1 = st.words 1 := by
  unfold readBitmap at hrun
  rw [run_bind (h.early.sNblocks (by decide))] at hrun
  obtain ⟨_, st₁, hloop, hrun⟩ := run_bind_eq_ok.mp hrun
  obtain ⟨h₁, hwords⟩ := forM_range_inv
    (fun i s => EarlyDirty true (· < i + 2) s ∧ s.words 1 = st.words 1) _ ⟨h, rfl⟩
    (by
      intro i _ s s' hI hbody
      obtain ⟨isnew, s₁, hread, hend⟩ := run_bind_eq_ok.mp hbody
      cases hend
      obtain ⟨hE, hwords⟩ := hI.1.readBlock (fun _ => by omega) hread
      refine ⟨hE.mono fun c => by omega, ?_⟩
      rw [hwords 1 (by omega), hI.2]) hloop
  obtain ⟨_, st₂, hset, hrun⟩ := run_bind_eq_ok.mp hrun
  have hst₂ : st₂ = { st₁ with bitmap := true } := by
    cases hset
    rfl
  have hn : st₂.nblocks = st.nblocks := by
    rw [hst₂]
    exact congrArg (fun ws : Block => (ws 1).toNat) hwords
  have hcached : ∀ c, (st₂.cache c).isSome ↔ c < st.nblocks / BIT2BLK + 1 + 2 := by
    rw [hst₂]
    exact h₁.early.cached
  have hready : Ready st₂ := by
    refine ⟨by rw [hst₂]; exact h₁.early.super, by rw [hst₂],
      (hcached 1).mpr (Nat.lt_of_lt_of_le (by decide) (Nat.le_add_left 2 _)), fun b hb => ?_⟩
    rw [hn] at hb
    have hdiv := Nat.div_le_div_right (c := BIT2BLK) (Nat.le_of_lt hb)
    exact (hcached _).mpr (by omega)
  -- the assertions change nothing
  have hassert : ∀ {c : Nat} {f : Unit → FsM Unit} {s' : FsState},
      (blockIsFree c >>= fun r => userAssert (!r) >>= f) st₂ = .ok ((), s') → f () st₂ = .ok ((), s') := by
    intro c f s' hbody
    rw [run_bind (hready.blockIsFree c)] at hbody
    obtain ⟨_, s₁, hassert, hrest⟩ := run_bind_eq_ok.mp hbody
    obtain ⟨-, rfl⟩ := userAssert_ok hassert
    exact hrest
  have hrest := hassert (hassert hrun)
  obtain rfl : st' = st₂ := forM_range_inv (fun _ s => s = st₂) _ rfl (by
    rintro i - s s' rfl hbody
    rw [run_bind (hready.blockIsFree _)] at hbody
    exact (userAssert_ok hbody).2.symm) hrest
  refine ⟨?_, (hcached 0).mpr (Nat.lt_of_lt_of_le (by decide) (Nat.le_add_left 2 _)), ?_⟩
  · rw [hst₂]
    exact h₁.dirty
  · rw [hst₂]
    exact hwords

/-- `fs_init` leaves no page stale. -/
theorem fsInit_rests {disk : Nat → Block} {mem : Nat → Bool} (hrun : fsInit (emptyCache disk mem) = .ok ((), st)) :
    (∀ d, ¬ st.Stale d) ∧ st.word 1 0 = FS_MAGIC ∧ ¬ st.isFree 0 := by
  obtain ⟨hready, hused⟩ := fsInit_ready hrun
  unfold fsInit at hrun
  obtain ⟨_, st₁, hread, hrun⟩ := run_bind_eq_ok.mp hrun
  obtain ⟨_, st₂, hcheck, hrun⟩ := run_bind_eq_ok.mp hrun
  obtain ⟨h₁, hmagic⟩ := readSuper_dirty hread
  obtain ⟨h₂, hwords₂⟩ := checkWriteBlock_dirty h₁ hcheck
  obtain ⟨hdirty, hzero, hwords⟩ := readBitmap_dirty h₂ hrun
  refine ⟨?_, ?_, hused 0 hzero⟩
  · rintro d ⟨p, hp, hclean, -⟩
    rw [hdirty d p hp] at hclean
    cases hclean
  · unfold FsState.word
    rw [contents_mapped hready.superPage, hwords, hwords₂]
    exact hmagic

-- ---------------------------------------------------------------------------
-- The boot block
-- ---------------------------------------------------------------------------

/-- The layout says nothing of the boot block. -/
theorem Layout.noBoot (h : Layout st use) : Layout st (Function.update use 0 none) := by
  have hold : ∀ {c u}, Function.update use 0 none c = some u → c ≠ 0 ∧ use c = some u := by
    intro c u hc
    by_cases hzero : c = 0
    · rw [hzero, Function.update_self] at hc
      cases hc
    · rw [Function.update_of_ne hzero] at hc
      exact ⟨hzero, hc⟩
  have hslot : ∀ {b i}, FileSlot (Function.update use 0 none) b i → FileSlot use b i := by
    intro b i hf
    cases hf with
    | root => exact .root
    | entry hdir hj => exact .entry (hold hdir).2 hj
  have hptr : ∀ {b i u}, Ptr st (Function.update use 0 none) b i u → Ptr st use b i u := by
    intro b i u hp
    cases hp with
    | direct hf hk => exact .direct (hslot hf) hk
    | table hf => exact .table (hslot hf)
    | entry htable hlo hhi => exact .entry (hold htable).2 hlo hhi
  exact {
    ready := h.ready
    size := h.size
    inUse := fun b u hu => h.inUse b u (hold hu).2
    superUse := h.superUse
    bitmapUse := fun c hc => h.bitmapUse c hc
    names := fun b i u hp => by
      by_cases hzero : st.word b i = 0
      · exact Or.inl hzero
      · have hne : (st.word b i).toNat ≠ 0 := fun heq => hzero (BitVec.eq_of_toNat_eq heq)
        rw [Function.update_of_ne hne]
        exact h.names b i u (hptr hp)
    once := fun b i u b' i' u' hp hp' => h.once b i u b' i' u' (hptr hp) (hptr hp')
    rootDir := h.rootDir }

end Mos.Fs
