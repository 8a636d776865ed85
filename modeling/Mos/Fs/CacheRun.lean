import Mos.Fs.CacheInit

/-!
# MOS on RISC-V — the block cache as a store

A run of the block cache after `fs_init`. `seen` is history: the words that were
read or stored last, block by block. What a block holds for its readers is its
page while it is cached and its copy on the disk otherwise (`contents`); reading,
writing and dropping blocks should leave that alone.

`unmap_block` writes a page back when its dirty bit is set, and the page that
`alloc_block` maps for a new block is clean. `cache_transparent` holds for runs in
which no clean page that differs from the disk is dropped or synced, and the
blocks of `fs_init` stay; `cache_loses_fresh` is the run of three calls that reads
the old contents of the disk out of a fresh block.
-/

namespace Mos.Fs

open Mos.Lib Mos.Kern

variable {st st' : FsState} {b c : Nat}

inductive CacheOp where
  | alloc
  | read (b : Nat)
  | store (b : Nat) (i : Fin 1024) (w : BitVec 32)    -- by the server
  | dirty (b : Nat)
  | write (b : Nat)
  | unmap (b : Nat)
  | sync

structure CacheRun where
  fs : FsState
  seen : Nat → Fin 1024 → Option (BitVec 32)

namespace CacheRun

/-- Block `b` is seen as it is now. -/
def see (seen : Nat → Fin 1024 → Option (BitVec 32)) (fs : FsState) (b : Nat) :
    Nat → Fin 1024 → Option (BitVec 32) :=
  Function.update seen b fun i => some (fs.words b i)

/-- Word `i` of block `b` is seen as it is now. -/
def seeWord (seen : Nat → Fin 1024 → Option (BitVec 32)) (fs : FsState) (b : Nat) (i : Fin 1024) :
    Nat → Fin 1024 → Option (BitVec 32) :=
  Function.update seen b (Function.update (seen b) i (some (fs.words b i)))

theorem see_eq_some {seen : Nat → Fin 1024 → Option (BitVec 32)} {fs : FsState} {b c : Nat}
    {i : Fin 1024} {v : BitVec 32} (h : see seen fs b c i = some v) :
    (c = b ∧ fs.words c i = v) ∨ (c ≠ b ∧ seen c i = some v) := by
  unfold see at h
  by_cases hc : c = b
  · rw [hc, Function.update_self] at h
    exact Or.inl ⟨hc, by rw [hc]; exact Option.some.inj h⟩
  · rw [Function.update_of_ne hc] at h
    exact Or.inr ⟨hc, h⟩

theorem seeWord_eq_some {seen : Nat → Fin 1024 → Option (BitVec 32)} {fs : FsState} {b c : Nat}
    {i j : Fin 1024} {v : BitVec 32} (h : seeWord seen fs b i c j = some v) :
    (c = b ∧ fs.words c j = v) ∨ ((c = b → j ≠ i) ∧ seen c j = some v) := by
  unfold seeWord at h
  by_cases hc : c = b
  · rw [hc, Function.update_self] at h
    by_cases hj : j = i
    · rw [hj, Function.update_self] at h
      exact Or.inl ⟨hc, by rw [hc, hj]; exact Option.some.inj h⟩
    · rw [Function.update_of_ne hj] at h
      exact Or.inr ⟨fun _ => hj, by rw [hc]; exact h⟩
  · rw [Function.update_of_ne hc] at h
    exact Or.inr ⟨fun hcb => absurd hcb hc, h⟩

end CacheRun

open CacheRun

/-- A store is to a block in use that is cached; another one is no step of the run.
`alloc_block` stores to a word of the bitmap, and shows the new block. -/
def CacheOp.run (s : CacheRun) : CacheOp → Except Stop CacheRun
  | .alloc => do
    match ← allocBlock s.fs with
    | (.error _, fs) => return ⟨fs, s.seen⟩
    | (.ok c, fs) =>
      return ⟨fs, see (seeWord s.seen fs (bitmapBlock (c >>> 5)) (Fin.ofNat 1024 (c >>> 5))) fs c⟩
  | .read b => do
    let (_, fs) ← readBlock b s.fs
    return ⟨fs, see s.seen fs b⟩
  | .store b i w =>
    if (s.fs.cache b).isSome ∧ ¬ s.fs.isFree b then do
      let (_, fs) ← Fs.store b i w s.fs
      return ⟨fs, seeWord s.seen fs b i⟩
    else .ok s
  | .dirty b => do
    let (_, fs) ← dirtyBlock b s.fs
    return ⟨fs, s.seen⟩
  | .write b => do
    let (_, fs) ← writeBlock b s.fs
    return ⟨fs, s.seen⟩
  | .unmap b => do
    let (_, fs) ← unmapBlock b s.fs
    return ⟨fs, s.seen⟩
  | .sync => do
    let (_, fs) ← fsSync s.fs
    return ⟨fs, s.seen⟩

/-- What `fs_init` leaves, with the blocks it has read. -/
def CacheRun.start (fs : FsState) : CacheRun :=
  ⟨fs, fun b i => if (fs.cache b).isSome then some (fs.words b i) else none⟩

/-- The states of the runs from `s₀` whose steps all meet `P`. -/
inductive CacheReach (P : FsState → CacheOp → Prop) (s₀ : CacheRun) : CacheRun → Prop where
  | refl : CacheReach P s₀ s₀
  | step {s s' : CacheRun} {op : CacheOp} : CacheReach P s₀ s → P s.fs op → op.run s = .ok s' →
      CacheReach P s₀ s'

/-- A block of the super block or the bitmap. -/
def FsState.isMeta (st : FsState) (b : Nat) : Prop :=
  b = 1 ∨ ∃ c < st.nblocks, b = c / BIT2BLK + 2

/-- No update is lost: a page that is dropped goes back to the disk or is there
already, a clean page agrees with the disk when all are synced, and the blocks
that `fs_init` read stay, with `s_nblocks` not raised. -/
def Careful (fs : FsState) : CacheOp → Prop
  | .store b i w => b = 1 → i = 1 → w.toNat ≤ fs.nblocks
  | .unmap b => ¬ fs.isMeta b ∧ (¬ fs.isFree b ∧ fs.isDirty b = true ∨ fs.words b = fs.disk b)
  | .sync => ∀ b < fs.nblocks, ¬ fs.isFree b → ∀ p, fs.cache b = some p → p.dirty = false →
      p.words = fs.disk b
  | _ => True

/-- What the readers of block `b` see. -/
def FsState.contents (st : FsState) (b : Nat) : Block :=
  match st.cache b with
  | some p => p.words
  | none => st.disk b

theorem contents_mapped (h : (st.cache b).isSome) : st.contents b = st.words b := by
  unfold FsState.contents FsState.words
  obtain ⟨p, hp⟩ := Option.isSome_iff_exists.mp h
  rw [hp]

theorem contents_unmapped (h : st.cache b = none) : st.contents b = st.disk b := by
  unfold FsState.contents
  rw [h]

theorem setPage_contents (st : FsState) (b c : Nat) (p : CachePage) :
    (st.setPage b (some p)).contents c = if c = b then p.words else st.contents c := by
  unfold FsState.contents
  split_ifs with h
  · rw [h, FsState.setPage_self]
  · rw [FsState.setPage_of_ne st h]
    rfl

/-- The disk of a cached block is not seen. -/
theorem setDisk_contents (h : (st.cache b).isSome) (ws : Block) :
    (st.setDisk b ws).contents = st.contents := by
  funext c
  unfold FsState.contents
  rw [FsState.setDisk_cache]
  cases hc : st.cache c with
  | some p => rfl
  | none =>
    have hne : c ≠ b := by
      rintro rfl
      rw [hc] at h
      cases h
    exact Function.update_of_ne hne ..

theorem storeWord_contents (h : (st.cache b).isSome) (i : Fin 1024) (w : BitVec 32) (c : Nat) :
    (st.storeWord b i w).contents c =
      if c = b then Function.update (st.contents b) i w else st.contents c := by
  rw [contents_mapped h]
  exact setPage_contents ..

/-- Dropping a page that the disk agrees with. -/
theorem drop_contents (h : st.contents b = st.disk b) : (st.setPage b none).contents = st.contents := by
  funext c
  by_cases hc : c = b
  · rw [hc, h]
    exact contents_unmapped (FsState.setPage_self ..)
  · unfold FsState.contents
    rw [FsState.setPage_of_ne st hc]
    rfl

-- ---------------------------------------------------------------------------
-- What each call leaves to be seen
-- ---------------------------------------------------------------------------

/-- A page is mapped where there was none. -/
theorem nblocks_setPage (h : Ready st) (hb : st.cache b = none) (p : CachePage) :
    (st.setPage b (some p)).nblocks = st.nblocks := by
  have hne : 1 ≠ b := by
    rintro rfl
    have hpage := h.superPage
    rw [hb] at hpage
    cases hpage
  unfold FsState.nblocks
  rw [FsState.setPage_words, if_neg hne]

theorem setPage_isSome (st : FsState) (b : Nat) (p : CachePage) (c : Nat) (h : (st.cache c).isSome) :
    ((st.setPage b (some p)).cache c).isSome := by
  by_cases hc : c = b
  · rw [hc, FsState.setPage_self]
    rfl
  · rw [FsState.setPage_of_ne st hc]
    exact h

/-- A block that is not cached is read from the disk. -/
theorem readBlock_contents (h : Ready st) {isnew : Bool} (hrun : readBlock b st = .ok (isnew, st')) :
    Ready st' ∧ (st'.cache b).isSome ∧ st'.contents = st.contents := by
  obtain ⟨-, -, ⟨hsome, rfl⟩ | ⟨hnone, mem, rfl⟩⟩ := readBlock_ok h hrun
  · exact ⟨h, hsome, rfl⟩
  · refine ⟨h.of_mapped rfl rfl (setPage_isSome _ b _) (Nat.le_of_eq (nblocks_setPage h hnone _)), ?_, ?_⟩
    · rw [FsState.setPage_self]
      rfl
    · funext c
      rw [setPage_contents]
      split_ifs with hc
      · rw [hc, contents_unmapped hnone]
      · rfl

theorem dirtyBlock_contents (h : Ready st) {r : Int} (hrun : dirtyBlock b st = .ok (r, st')) :
    Ready st' ∧ st'.contents = st.contents := by
  obtain ⟨hwords, hcache⟩ := dirtyBlock_same hrun
  have hn : st'.nblocks = st.nblocks := by
    unfold FsState.nblocks
    rw [hwords]
  rcases dirtyBlock_ok hrun with rfl | ⟨p, hp, rfl⟩
  · exact ⟨h, rfl⟩
  · refine ⟨h.of_mapped rfl rfl (fun c hc => by rw [hcache]; exact hc) (Nat.le_of_eq hn), ?_⟩
    funext c
    rw [setPage_contents]
    split_ifs with hc
    · rw [hc, contents_mapped (by rw [hp]; rfl), st.words_of_cache hp]
    · rfl

theorem writeBlock_contents (h : Ready st) (hrun : writeBlock b st = .ok ((), st')) :
    Ready st' ∧ st'.contents = st.contents := by
  obtain ⟨hsome, rfl⟩ := writeBlock_ok hrun
  exact ⟨h.of_mapped rfl rfl (fun _ hc => hc) (Nat.le_refl _), setDisk_contents hsome _⟩

theorem store_contents (h : Ready st) (hb : (st.cache b).isSome) {i : Fin 1024} {w : BitVec 32}
    (hw : b = 1 → i = 1 → w.toNat ≤ st.nblocks) : Ready (st.storeWord b i w) := by
  refine h.storeWord hb i w ?_
  unfold FsState.nblocks
  rw [FsState.storeWord_words]
  split_ifs with hb1
  · by_cases hi : i = 1
    · rw [hi, Function.update_self]
      exact hw hb1.symm hi
    · rw [Function.update_of_ne (Ne.symm hi), ← hb1]
  · exact Nat.le_refl _

/-- A page that goes back to the disk, or need not. -/
theorem unmapBlock_contents (h : Ready st) (hcare : Careful st (.unmap b))
    (hrun : unmapBlock b st = .ok ((), st')) : Ready st' ∧ st'.contents = st.contents := by
  obtain ⟨hmeta, hback⟩ := hcare
  obtain ⟨hsome, rfl⟩ := unmapBlock_ok h hrun
  have hne1 : 1 ≠ b := fun h1 => hmeta (Or.inl h1.symm)
  have hkeep : ∀ st₁ : FsState, st₁.cache = st.cache → st₁.super = st.super →
      st₁.bitmap = st.bitmap → Ready (st₁.setPage b none) := by
    intro st₁ hcache hsuper hbitmap
    have hn : (st₁.setPage b none).nblocks = st.nblocks := by
      unfold FsState.nblocks FsState.words
      rw [FsState.setPage_of_ne st₁ hne1, hcache]
    refine ⟨hsuper.trans h.super, hbitmap.trans h.bitmap, ?_, ?_⟩
    · rw [FsState.setPage_of_ne st₁ hne1, hcache]
      exact h.superPage
    · intro c hc
      rw [hn] at hc
      rw [FsState.setPage_of_ne st₁ fun heq => hmeta (Or.inr ⟨c, hc, heq.symm⟩), hcache]
      exact h.bitmapPage c hc
  split_ifs with hdirty
  · refine ⟨hkeep _ rfl rfl rfl, ?_⟩
    rw [drop_contents, setDisk_contents hsome]
    rw [setDisk_contents hsome, contents_mapped hsome, FsState.setDisk_self]
  · refine ⟨hkeep _ rfl rfl rfl, drop_contents ?_⟩
    rw [contents_mapped hsome]
    exact hback.resolve_left hdirty

/-- `fs_sync` writes the dirty blocks. -/
theorem fsSync_ok (h : Ready st) (hrun : fsSync st = .ok ((), st')) :
    st'.cache = st.cache ∧ st'.super = st.super ∧ st'.bitmap = st.bitmap ∧
      ∀ b, st'.disk b = if b < st.nblocks ∧ st.isDirty b = true then st.words b else st.disk b := by
  unfold fsSync at hrun
  rw [run_bind h.sNblocks] at hrun
  refine forM_range_inv (fun i (s : FsState) => s.cache = st.cache ∧ s.super = st.super ∧
    s.bitmap = st.bitmap ∧
      ∀ b, s.disk b = if b < i ∧ st.isDirty b = true then st.words b else st.disk b) _
    ⟨rfl, rfl, rfl, fun b => by rw [if_neg (by omega)]⟩ ?_ hrun
  rintro i - s s' ⟨hcache, hsuper, hbitmap, hdisk⟩ hbody
  have hdirty : s.isDirty i = st.isDirty i := by
    unfold FsState.isDirty
    rw [hcache]
  unfold syncBlock at hbody
  rw [run_bind (blockIsDirty_eq i s), hdirty] at hbody
  split_ifs at hbody with hd
  · obtain ⟨-, rfl⟩ := writeBlock_ok hbody
    refine ⟨hcache, hsuper, hbitmap, fun b => ?_⟩
    have hwords : s.words = st.words := by
      unfold FsState.words
      rw [hcache]
    by_cases hb : b = i
    · rw [hb, if_pos ⟨Nat.lt_succ_self i, hd⟩, ← hwords, FsState.setDisk_self]
    · rw [FsState.setDisk_of_ne s hb, hdisk]
      exact if_congr (and_congr_left' (by omega)) rfl rfl
  · cases hbody
    refine ⟨hcache, hsuper, hbitmap, fun b => ?_⟩
    rw [hdisk b]
    by_cases hb : b = i
    · rw [hb, if_neg fun hc => hd hc.2, if_neg fun hc => hd hc.2]
    · exact if_congr (and_congr_left' (by omega)) rfl rfl

theorem fsSync_contents (h : Ready st) (hrun : fsSync st = .ok ((), st')) :
    Ready st' ∧ st'.contents = st.contents := by
  obtain ⟨hcache, hsuper, hbitmap, hdisk⟩ := fsSync_ok h hrun
  have hn : st'.nblocks = st.nblocks := by
    unfold FsState.nblocks FsState.words
    rw [hcache]
  refine ⟨h.of_mapped hsuper hbitmap (fun c hc => by rw [hcache]; exact hc) (Nat.le_of_eq hn), ?_⟩
  funext b
  unfold FsState.contents
  rw [hcache]
  cases hb : st.cache b with
  | some p => rfl
  | none =>
    show st'.disk b = st.disk b
    rw [hdisk, if_neg]
    rintro ⟨-, hd⟩
    have := isDirty_isSome hd
    rw [hb] at this
    cases this

theorem taken_contents (h : Ready st) (hc : c < st.nblocks) (b : Nat) :
    (st.taken c).contents b = if b = bitmapBlock (c >>> 5) then
      Function.update (st.contents b) (Fin.ofNat 1024 (c >>> 5)) (st.bits (c >>> 5) &&& ~~~Bitmap.mask c)
      else st.contents b := by
  have hpage := h.page hc
  have hdisk : (st.taken c).contents = (st.setUsed c).contents := by
    unfold FsState.taken
    refine setDisk_contents ?_ _
    rw [← bitmapBlock_shift]
    unfold FsState.setUsed
    rw [st.storeWord_isSome hpage]
    exact hpage
  rw [hdisk]
  unfold FsState.setUsed
  rw [storeWord_contents hpage]
  split_ifs with hb
  · rw [hb]
  · rfl

/-- A block that is taken and given back. -/
theorem setFree_taken_contents (h : Ready st) (hfree : st.isFree c) (mem : Nat → Bool) :
    (((st.taken c).withMem mem).setFree c).contents = st.contents := by
  have hpage := h.page hfree.1
  have hready := h.taken hfree.1
  have hpage' : ((st.taken c).cache (bitmapBlock (c >>> 5))).isSome :=
    hready.page (by rw [taken_nblocks]; exact hfree.1)
  -- the word of the bitmap is what it was
  have hbits : (st.taken c).bits (c >>> 5) ||| Bitmap.mask c = st.bits (c >>> 5) := by
    have hset := congrFun (Bitmap.set_clear hfree.2) (c >>> 5)
    unfold Bitmap.set at hset
    rw [Function.update_self] at hset
    have hclear : (st.taken c).bits = Bitmap.clear st.bits c := bits_storeWord ..
    rw [hclear]
    exact hset
  funext b
  unfold FsState.setFree
  rw [storeWord_contents (show (((st.taken c).withMem mem).cache _).isSome from hpage')]
  show (if b = _ then Function.update ((st.taken c).contents _) _ ((st.taken c).bits _ ||| _)
    else (st.taken c).contents b) = _
  rw [hbits, taken_contents h hfree.1, taken_contents h hfree.1, if_pos rfl]
  split_ifs with hb
  · rw [Function.update_idem, contents_mapped hpage, hb, contents_mapped hpage]
    exact Function.update_eq_self ..
  · rfl

/-- `alloc_block` changes a word of the bitmap and the page of the new block. -/
theorem allocBlock_contents (h : Ready st) {r : Except Int Nat} (hrun : allocBlock st = .ok (r, st')) :
    Ready st' ∧ match r with
      | .error _ => st'.contents = st.contents
      | .ok c => (st'.cache c).isSome ∧ (st'.cache (bitmapBlock (c >>> 5))).isSome ∧
          ∀ b i, b ≠ c → (b = bitmapBlock (c >>> 5) → i ≠ Fin.ofNat 1024 (c >>> 5)) →
            st'.contents b i = st.contents b i := by
  rcases allocBlock_ok h hrun with ⟨rfl, rfl⟩ | ⟨c, mem, hc, hfree, hcases⟩
  · exact ⟨h, rfl⟩
  have hready := h.taken hfree.1
  have hlt : c < (st.taken c).nblocks := by
    rw [taken_nblocks]
    exact hfree.1
  have hsame : ∀ b i, (b = bitmapBlock (c >>> 5) → i ≠ Fin.ofNat 1024 (c >>> 5)) →
      (st.taken c).contents b i = st.contents b i := by
    intro b i hi
    rw [taken_contents h hfree.1]
    split_ifs with hb
    · exact Function.update_of_ne (hi hb) ..
    · rfl
  rcases hcases with ⟨rfl, hsome, rfl⟩ | ⟨rfl, hnone, rfl⟩ | ⟨rfl, hnone, rfl⟩
  · exact ⟨hready, hsome, hready.page hlt, fun b i _ hi => hsame b i hi⟩
  · refine ⟨hready.of_mapped rfl rfl (setPage_isSome _ c _)
      (Nat.le_of_eq (nblocks_setPage hready hnone _)), ?_, setPage_isSome _ c _ _ (hready.page hlt), ?_⟩
    · rw [FsState.setPage_self]
      rfl
    · intro b i hb hi
      rw [setPage_contents, if_neg hb]
      exact hsame b i hi
  · have hready' : Ready ((st.taken c).withMem mem) :=
      hready.of_mapped rfl rfl (fun _ hd => hd) (Nat.le_refl _)
    exact ⟨hready'.setFree hlt, setFree_taken_contents h hfree mem⟩

/-- Everything seen is still there. -/
structure CacheInv (s : CacheRun) : Prop where
  ready : Ready s.fs
  kept : ∀ b i v, s.seen b i = some v → s.fs.contents b i = v

namespace CacheInv

variable {s s' : CacheRun} {fs : FsState}

theorem start (h : Ready fs) : CacheInv (.start fs) := by
  refine ⟨h, ?_⟩
  intro b i v hv
  unfold CacheRun.start at hv
  simp only at hv
  split_ifs at hv with hb
  rw [← Option.some.inj hv]
  exact congrFun (contents_mapped hb) i

/-- A call that leaves all blocks as they are. -/
theorem same (h : CacheInv s) (hready : Ready fs) (hsame : fs.contents = s.fs.contents) :
    CacheInv ⟨fs, s.seen⟩ :=
  ⟨hready, fun b i v hv => by rw [hsame]; exact h.kept b i v hv⟩

/-- A cached block is seen. -/
theorem see (h : CacheInv s) (hb : (s.fs.cache b).isSome) : CacheInv ⟨s.fs, see s.seen s.fs b⟩ := by
  refine ⟨h.ready, ?_⟩
  intro c i v hv
  rcases see_eq_some hv with ⟨rfl, hw⟩ | ⟨-, hv⟩
  · exact (congrFun (contents_mapped hb) i).trans hw
  · exact h.kept c i v hv

/-- A word of a cached block changes, and is seen. -/
theorem seeWord (h : CacheInv s) (hready : Ready fs) (hb : (fs.cache b).isSome) {i : Fin 1024}
    (hsame : ∀ c j, (c = b → j ≠ i) → fs.contents c j = s.fs.contents c j) :
    CacheInv ⟨fs, seeWord s.seen fs b i⟩ := by
  refine ⟨hready, ?_⟩
  intro c j v hv
  rcases seeWord_eq_some hv with ⟨rfl, hw⟩ | ⟨hne, hv⟩
  · exact (congrFun (contents_mapped hb) j).trans hw
  · exact (hsame c j hne).trans (h.kept c j v hv)

theorem alloc (h : CacheInv s) (hrun : CacheOp.alloc.run s = .ok s') : CacheInv s' := by
  unfold CacheOp.run at hrun
  obtain ⟨⟨r, fs⟩, halloc, hrun⟩ := bind_eq_ok.mp hrun
  have hcontents := allocBlock_contents h.ready halloc
  cases r with
  | error e =>
    cases hrun
    exact h.same hcontents.1 hcontents.2
  | ok c =>
    obtain ⟨hready, hnew, hbits, hsame⟩ := hcontents
    cases hrun
    refine ⟨hready, ?_⟩
    intro b i v hv
    rcases see_eq_some hv with ⟨rfl, hw⟩ | ⟨hbc, hv⟩
    · exact (congrFun (contents_mapped hnew) i).trans hw
    · rcases seeWord_eq_some hv with ⟨rfl, hw⟩ | ⟨hne, hv⟩
      · exact (congrFun (contents_mapped hbits) i).trans hw
      · exact (hsame b i hbc hne).trans (h.kept b i v hv)

theorem store (h : CacheInv s) {i : Fin 1024} {w : BitVec 32} (hcare : Careful s.fs (.store b i w))
    (hrun : (CacheOp.store b i w).run s = .ok s') : CacheInv s' := by
  simp only [CacheOp.run] at hrun
  split_ifs at hrun with hb
  · rw [store_mapped hb.1] at hrun
    cases hrun
    refine h.seeWord (store_contents h.ready hb.1 hcare) ?_ ?_
    · rw [s.fs.storeWord_isSome hb.1]
      exact hb.1
    · intro c j hne
      rw [storeWord_contents hb.1]
      split_ifs with hc
      · rw [Function.update_of_ne (hne hc), hc]
      · rfl
  · cases hrun
    exact h

/-- One call. -/
theorem step (h : CacheInv s) {op : CacheOp} (hcare : Careful s.fs op) (hrun : op.run s = .ok s') :
    CacheInv s' := by
  cases op with
  | alloc => exact h.alloc hrun
  | store b i w => exact h.store hcare hrun
  | read b =>
    obtain ⟨⟨isnew, fs⟩, hread, hrun⟩ := bind_eq_ok.mp hrun
    cases hrun
    obtain ⟨hready, hb, hsame⟩ := readBlock_contents h.ready hread
    exact (h.same hready hsame).see hb
  | dirty b =>
    obtain ⟨⟨r, fs⟩, hdirty, hrun⟩ := bind_eq_ok.mp hrun
    cases hrun
    obtain ⟨hready, hsame⟩ := dirtyBlock_contents h.ready hdirty
    exact h.same hready hsame
  | write b =>
    obtain ⟨⟨_, fs⟩, hwrite, hrun⟩ := bind_eq_ok.mp hrun
    cases hrun
    obtain ⟨hready, hsame⟩ := writeBlock_contents h.ready hwrite
    exact h.same hready hsame
  | unmap b =>
    obtain ⟨⟨_, fs⟩, hunmap, hrun⟩ := bind_eq_ok.mp hrun
    cases hrun
    obtain ⟨hready, hsame⟩ := unmapBlock_contents h.ready hcare hunmap
    exact h.same hready hsame
  | sync =>
    obtain ⟨⟨_, fs⟩, hsync, hrun⟩ := bind_eq_ok.mp hrun
    cases hrun
    obtain ⟨hready, hsame⟩ := fsSync_contents h.ready hsync
    exact h.same hready hsame

end CacheInv

theorem CacheReach.inv {fs : FsState} (hfs : Ready fs) {s : CacheRun}
    (h : CacheReach Careful (.start fs) s) : CacheInv s := by
  induction h with
  | refl => exact .start hfs
  | step _ hcare hrun ih => exact ih.step hcare hrun

/-- **The cache is transparent.** In every careful run, what `read_block` shows of
a block is what was seen or stored there last, and after a careful `fs_sync` the
disk has the contents of every cached block in use. -/
theorem cache_transparent (disk : Nat → Block) (mem : Nat → Bool) {fs : FsState}
    (hinit : fsInit (emptyCache disk mem) = .ok ((), fs)) {s : CacheRun}
    (hrun : CacheReach Careful (.start fs) s) :
    (∀ b isnew fs', readBlock b s.fs = .ok (isnew, fs') →
      ∀ i v, s.seen b i = some v → fs'.words b i = v) ∧
    (Careful s.fs .sync → ∀ fs', fsSync s.fs = .ok ((), fs') →
      ∀ b < fs'.nblocks, ¬ fs'.isFree b → ∀ p, fs'.cache b = some p → fs'.disk b = p.words) := by
  have hinv := hrun.inv (fsInit_ready hinit).1
  refine ⟨?_, ?_⟩
  · intro b isnew fs' hread i v hv
    obtain ⟨-, hb, hsame⟩ := readBlock_contents hinv.ready hread
    rw [← contents_mapped hb, hsame]
    exact hinv.kept b i v hv
  · intro hcare fs' hsync b hb hfree p hp
    obtain ⟨hcache, -, -, hdisk⟩ := fsSync_ok hinv.ready hsync
    have hwords : fs'.words = s.fs.words := by
      unfold FsState.words
      rw [hcache]
    have hn : fs'.nblocks = s.fs.nblocks := congrArg (fun ws => (ws 1 1).toNat) hwords
    have hused : fs'.isFree b ↔ s.fs.isFree b := by
      unfold FsState.isFree FsState.bits
      rw [hn, hwords]
    rw [hcache] at hp
    rw [hn] at hb
    rw [hdisk]
    split_ifs with hd
    · exact s.fs.words_of_cache hp
    · have hclean : p.dirty = false := by
        unfold FsState.isDirty at hd
        rw [hp] at hd
        simpa [hb] using hd
      exact (hcare b hb (fun h => hfree (hused.mpr h)) p hp hclean).symm

/-- A disk of five blocks; 3 and 4 are free, and block 3 holds sevens. -/
def smallDisk : Nat → Block := fun b i =>
  if b = 1 ∧ i = 0 then FS_MAGIC
  else if b = 1 ∧ i = 1 then 5#32
  else if b = 2 ∧ i = 0 then 0b11000#32
  else if b = 3 then 7#32
  else 0#32

def CacheRun.runAll (s : CacheRun) : List CacheOp → Except Stop CacheRun
  | [] => .ok s
  | op :: ops => do
    let s ← op.run s
    s.runAll ops

theorem CacheReach.runAll {P : FsState → CacheOp → Prop} {s₀ s s' : CacheRun} {ops : List CacheOp}
    (h : CacheReach P s₀ s) (hP : ∀ op ∈ ops, ∀ fs, P fs op) (hrun : s.runAll ops = .ok s') :
    CacheReach P s₀ s' := by
  induction ops generalizing s with
  | nil =>
    cases hrun
    exact h
  | cons op ops ih =>
    obtain ⟨s₁, hop, hrest⟩ := bind_eq_ok.mp hrun
    exact ih (h.step (hP op List.mem_cons_self s.fs) hop)
      (fun op' h' => hP op' (List.mem_cons_of_mem op h')) hrest

/-- `fs_init` on the small disk, then calls, then a look at block 3. -/
def smallRun (ops : List CacheOp) : Except Stop (Option (BitVec 32) × BitVec 32) := do
  let (_, fs) ← fsInit (emptyCache smallDisk fun _ => true)
  let s ← (CacheRun.start fs).runAll ops
  let (_, fs') ← readBlock 3 s.fs
  return (s.seen 3 0, fs'.words 3 0)

theorem smallRun_ok {ops : List CacheOp} {P : FsState → CacheOp → Prop} {v : Option (BitVec 32)}
    {w : BitVec 32} (hP : ∀ op ∈ ops, ∀ fs, P fs op) (h : smallRun ops = .ok (v, w)) :
    ∃ fs s isnew fs', fsInit (emptyCache smallDisk fun _ => true) = .ok ((), fs) ∧
      CacheReach P (.start fs) s ∧ readBlock 3 s.fs = .ok (isnew, fs') ∧ s.seen 3 0 = v ∧
      fs'.words 3 0 = w := by
  obtain ⟨⟨_, fs⟩, hinit, h⟩ := bind_eq_ok.mp h
  obtain ⟨s, hrun, h⟩ := bind_eq_ok.mp h
  obtain ⟨⟨isnew, fs'⟩, hread, h⟩ := bind_eq_ok.mp h
  cases h
  exact ⟨fs, s, isnew, fs', hinit, .runAll .refl hP hrun, hread, rfl, rfl⟩

/-- A block that is allocated and stored to. -/
theorem cache_transparent_store :
    ∃ fs s isnew fs', fsInit (emptyCache smallDisk fun _ => true) = .ok ((), fs) ∧
      CacheReach Careful (.start fs) s ∧ readBlock 3 s.fs = .ok (isnew, fs') ∧
      s.seen 3 0 = some 9#32 ∧ fs'.words 3 0 = 9#32 := by
  have hrun : smallRun [.alloc, .store 3 0 9#32, .write 3] = .ok (some 9#32, 9#32) := rfl
  obtain ⟨fs, s, isnew, fs', hinit, hreach, hread, hseen, -⟩ :=
    smallRun_ok (P := Careful) (by simp [Careful]) hrun
  exact ⟨fs, s, isnew, fs', hinit, hreach, hread, hseen,
    (cache_transparent _ _ hinit hreach).1 3 isnew fs' hread 0 _ hseen⟩

/-- A fresh block is seen to be zero, dropped and read again. -/
theorem cache_loses_fresh :
    ∃ fs s isnew fs', fsInit (emptyCache smallDisk fun _ => true) = .ok ((), fs) ∧
      CacheReach (fun _ _ => True) (.start fs) s ∧ readBlock 3 s.fs = .ok (isnew, fs') ∧
      s.seen 3 0 = some 0#32 ∧ fs'.words 3 0 = 7#32 := by
  have hrun : smallRun [.alloc, .read 3, .unmap 3] = .ok (some 0#32, 7#32) := rfl
  exact smallRun_ok (fun _ _ _ => trivial) hrun

end Mos.Fs
