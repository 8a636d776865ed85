import Mos.Fs.LayoutRun

/-!
# MOS on RISC-V — the bitmap at every size of the disk

`fsformat` lays the bitmap out in as few blocks as hold one bit for each block of the
disk. `read_bitmap` takes one block more than the whole blocks of bits: the same number,
unless the bits fill their blocks. The allocator starts at block 3, whatever the size, and
leaves the further bitmap blocks alone because they are marked in use.

Main results:

* `readBitmap_iff` — on a disk laid out by `fsformat`, `read_bitmap` reads the bitmap and no
  other block, and no reserved block is allocated later, exactly if `s_nblocks` is no
  multiple of `BIT2BLK`;
* `fsInit_multiple` — at a multiple, `fs_init` fails an assertion on a free block.
-/

namespace Mos.Fs

open Mos.Lib Mos.Kern

variable {st st' : FsState} {b c n : Nat}

/-- `nbitblock` of `init_disk` in `fsformat`. -/
def nbitblock (n : Nat) : Nat := (n + BIT2BLK - 1) / BIT2BLK

/-- The boot block, the super block and the bitmap. -/
def reserved (n : Nat) : Nat := 2 + nbitblock n

/-- The words of the bitmap on the disk. -/
def FsState.diskBits (st : FsState) : Bitmap := fun i => st.disk (bitmapBlock i) (Fin.ofNat 1024 i)

/-- A disk as `init_disk` lays it out: there is room for the reserved blocks, and they
are marked in use. -/
structure Formatted (st : FsState) : Prop where
  room : reserved st.nblocks ≤ st.nblocks
  inUse : ∀ b < reserved st.nblocks, ¬ st.diskBits.isSet b

/-- No reserved block is freed, and stores leave `s_nblocks` and the bitmap alone. -/
def Spares (st : FsState) : ServOp → Prop
  | .free b => reserved st.nblocks ≤ b
  | .store b i _ => (b = 1 → i ≠ 1) ∧ (b < 2 ∨ reserved st.nblocks ≤ b)
  | .client b i _ => (b = 1 → i ≠ 1) ∧ (b < 2 ∨ reserved st.nblocks ≤ b)
  | _ => True

/-- `alloc_block_num` returns no reserved block, then or later. -/
def AllocsData (st : FsState) : Prop :=
  ∀ st₁, ServReach Spares st st₁ → ∀ c st₂, allocBlockNum st₁ = .ok (.ok c, st₂) → reserved st.nblocks ≤ c

/-- `read_bitmap` reads the bitmap blocks and no others, and the allocator spares what is
reserved. -/
def ReadsBitmap (st : FsState) : Prop :=
  ∃ st', readBitmap st = .ok ((), st') ∧
    (∀ c, (st'.cache c).isSome ↔ (st.cache c).isSome ∨ (2 ≤ c ∧ c < reserved st.nblocks)) ∧ AllocsData st'

-- ---------------------------------------------------------------------------
-- Sizes
-- ---------------------------------------------------------------------------

/-- The two roundings agree, but for a multiple. -/
theorem nbitblock_eq_iff (hn : 0 < n) : nbitblock n = n / BIT2BLK + 1 ↔ n % BIT2BLK ≠ 0 := by
  simp only [nbitblock, BIT2BLK, BY2BLK, BY2PG]
  omega

theorem bitmapBlock_reserved (hc : c < n) : c / BIT2BLK + 2 < reserved n := by
  simp only [reserved, nbitblock, BIT2BLK, BY2BLK, BY2PG]
  omega

theorem Formatted.pos (h : Formatted st) : 0 < st.nblocks := by
  have hroom := h.room
  unfold reserved at hroom
  omega

-- ---------------------------------------------------------------------------
-- read_bitmap
-- ---------------------------------------------------------------------------

/-- The first blocks are read: the kernel had a page for each. -/
structure BitmapRead (st st' : FsState) (k : Nat) : Prop where
  early : Early true (· < k + 2) st'
  super : st'.words 1 = st.words 1
  blocks : ∀ i < k, st'.words (i + 2) = st.disk (i + 2)
  disk : st'.disk = st.disk
  mem : ∀ j, st'.mem j = st.mem (j + k)

/-- `read_block` of a block that is not cached, before there is a bitmap. -/
theorem readBlock_early {k : Nat} (h : Early true (· < k) st) (hk : 2 ≤ k) (hlt : k < st.nblocks)
    (hmem : st.mem 0 = true) :
    readBlock k st = .ok (true, st.asked.setPage k (some ⟨st.disk k, true⟩)) := by
  have hexists : checkExists k st = .ok ((), st) := by
    unfold checkExists
    have hp : decide (st.nblocks ≤ k) = false := decide_eq_false (Nat.not_le.mpr hlt)
    rw [run_get, if_pos h.super, run_bind (h.sNblocks (by omega))]
    show userPanicIf (decide (st.nblocks ≤ k)) st = _
    rw [hp]
    rfl
  have hused : checkUsed k st = .ok ((), st) := by
    unfold checkUsed
    rw [run_get, h.bitmap]
    rfl
  have hnone : ¬ (st.cache k).isSome = true := fun hc => absurd ((h.cached k).mp hc) (Nat.lt_irrefl k)
  have hmap : blockIsMapped k st = .ok ((st.cache k).isSome, st) := rfl
  have halloc := syscallMemAlloc_run k st
  rw [if_pos hmem] at halloc
  have hstore : storeBlock k (st.disk k) (st.asked.setPage k (some ⟨zeroBlock, false⟩)) =
      .ok ((), st.asked.setPage k (some ⟨st.disk k, true⟩)) := by
    unfold storeBlock
    have hmapped : ((st.asked.setPage k (some ⟨zeroBlock, false⟩)).cache k).isSome := by
      rw [FsState.setPage_self]
      rfl
    obtain ⟨p, -, -, hacc⟩ := access_mapped hmapped
    rw [run_bind hacc]
    unfold FsState.setPage
    exact congrArg (fun cache => Except.ok ((), { st.asked with cache := cache })) (Function.update_idem ..)
  unfold readBlock
  rw [run_bind hexists, run_bind hused, run_bind hmap, if_neg hnone, run_bind halloc, run_get]
  exact run_bind hstore _

/-- The loop that reads the bitmap. -/
theorem readBlocks_run (h : Early true (· < 2) st) {k : Nat} (hk : k + 2 ≤ st.nblocks)
    (hmem : ∀ i < k, st.mem i = true) :
    ∃ st', (List.range k).forM (fun i => do let _ ← readBlock (i + 2) : Nat → FsM Unit) st = .ok ((), st') ∧
      BitmapRead st st' k := by
  induction k with
  | zero => exact ⟨st, rfl, h, rfl, nofun, rfl, fun _ => rfl⟩
  | succ k ih =>
    obtain ⟨st₁, hrun, hread⟩ := ih (by omega) fun i hi => hmem i (Nat.lt_succ_of_lt hi)
    have hn : st₁.nblocks = st.nblocks := by
      unfold FsState.nblocks
      rw [hread.super]
    have hmem₁ : st₁.mem 0 = true := by
      rw [hread.mem, Nat.zero_add]
      exact hmem k (Nat.lt_succ_self k)
    have hblock := readBlock_early hread.early (Nat.le_add_left 2 k) (by omega) hmem₁
    refine ⟨st₁.asked.setPage (k + 2) (some ⟨st₁.disk (k + 2), true⟩), ?_, ?_, ?_, ?_, hread.disk, ?_⟩
    · rw [List.range_succ, List.forM_eq_forM, List.forM_append]
      refine (run_bind hrun _).trans ?_
      rw [List.forM_cons]
      exact run_bind (run_bind hblock _) _
    · exact (hread.early.setPage _ (k + 2) _).mono fun c => by omega
    · rw [FsState.setPage_words, if_neg (by omega)]
      exact hread.super
    · intro i hi
      rw [FsState.setPage_words]
      split_ifs with hik
      · rw [hik, hread.disk]
      · exact hread.blocks i (by omega)
    · intro j
      show st₁.mem (j + 1) = _
      rw [hread.mem]
      congr 1
      omega

/-- A loop that changes nothing. -/
theorem forM_range_same {f : Nat → FsM Unit} (k : Nat) (h : ∀ i < k, f i st = .ok ((), st)) :
    (List.range k).forM f st = .ok ((), st) := by
  induction k with
  | zero => rfl
  | succ k ih =>
    rw [List.range_succ, List.forM_eq_forM, List.forM_append]
    refine (run_bind (ih fun i hi => h i (Nat.lt_succ_of_lt hi)) _).trans ?_
    rw [List.forM_cons]
    exact run_bind (h k (Nat.lt_succ_self k)) _

namespace BitmapRead

variable {k : Nat}

theorem nblocks (h : BitmapRead st st' k) : st'.nblocks = st.nblocks := by
  unfold FsState.nblocks
  rw [h.super]

/-- With the whole bitmap cached. -/
theorem ready (h : BitmapRead st st' (st.nblocks / BIT2BLK + 1)) : Ready { st' with bitmap := true } where
  super := h.early.super
  bitmap := rfl
  superPage := (h.early.cached 1).mpr (Nat.lt_of_lt_of_le (by decide) (Nat.le_add_left 2 _))
  bitmapPage b hb := by
    have hle := Nat.div_le_div_right (c := BIT2BLK) (Nat.le_of_lt hb)
    have hn : ({ st' with bitmap := true } : FsState).nblocks = st.nblocks := h.nblocks
    rw [hn] at hle
    exact (h.early.cached _).mpr (by omega)

/-- What the disk says of a block whose bit was read. -/
theorem isFree (h : BitmapRead st st' k) (hb : b / BIT2BLK < k) :
    ({ st' with bitmap := true } : FsState).isFree b ↔ b < st.nblocks ∧ st.diskBits.isSet b := by
  have hn : ({ st' with bitmap := true } : FsState).nblocks = st.nblocks := h.nblocks
  unfold FsState.isFree
  rw [hn]
  refine and_congr_right fun _ => ?_
  have hword : ({ st' with bitmap := true } : FsState).bits (b >>> 5) = st.diskBits (b >>> 5) := by
    unfold FsState.bits FsState.diskBits
    rw [bitmapBlock_shift, ← h.blocks _ hb]
    rfl
  unfold Bitmap.isSet
  rw [hword]

end BitmapRead

-- ---------------------------------------------------------------------------
-- The reserved blocks, later
-- ---------------------------------------------------------------------------

/-- The reserved blocks of a disk of `n` blocks are in use. -/
structure Spared (st : FsState) (n : Nat) : Prop where
  ready : Ready st
  nblocks : st.nblocks = n
  inUse : ∀ b < reserved n, ¬ st.isFree b

namespace Spared

theorem of_isFree (h : Spared st n) (hready : Ready st') (hn : st'.nblocks = st.nblocks)
    (hfree : ∀ b < reserved n, st'.isFree b → st.isFree b) : Spared st' n :=
  ⟨hready, hn.trans h.nblocks, fun b hb hc => h.inUse b hb (hfree b hb hc)⟩

theorem alloc (h : Spared st n) {r : Except Int Nat} (hrun : allocBlock st = .ok (r, st')) : Spared st' n := by
  refine h.of_isFree (allocBlock_contents h.ready hrun).1 (allocBlock_mapped h.ready hrun).1 fun b _ hb => ?_
  rcases allocBlock_ok h.ready hrun with ⟨-, rfl⟩ | ⟨c, mem, -, hfree, ⟨-, -, rfl⟩ | ⟨-, hnone, rfl⟩ | ⟨-, -, rfl⟩⟩
  · exact hb
  · exact ((taken_isFree st c b).mp hb).1
  · have hready : Ready ((st.taken c).withMem mem) :=
      (h.ready.taken hfree.1).of_mapped rfl rfl (fun _ hd => hd) (Nat.le_refl _)
    rw [isFree_setPage hready hnone] at hb
    exact ((taken_isFree st c b).mp hb).1
  · have hlt : c < ((st.taken c).withMem mem).nblocks := by
      show c < (st.taken c).nblocks
      rw [taken_nblocks]
      exact hfree.1
    rcases (setFree_isFree _ hlt b).mp hb with hb | rfl
    · exact ((taken_isFree st c b).mp hb).1
    · exact hfree

/-- A store to a word that is neither `s_nblocks` nor of the bitmap. -/
theorem plain (hb : (st.cache b).isSome) {i : Fin 1024} (hsuper : b = 1 → i ≠ 1)
    (hspares : b < 2 ∨ reserved st.nblocks ≤ b) : Plain st b i where
  cached := hb
  super := hsuper
  bitmap c hc := by
    have hlt := bitmapBlock_reserved hc
    intro heq
    have hge : 2 ≤ b := by
      rw [heq]
      exact Nat.le_add_left 2 _
    rw [← heq] at hlt
    omega

/-- One step of the server or of a client. -/
theorem step (h : Spared st n) {op : ServOp} (hspares : Spares st op) (hrun : op.run st = .ok st') :
    Spared st' n := by
  cases op with
  | alloc =>
    obtain ⟨⟨r, st₁⟩, halloc, hrun⟩ := bind_eq_ok.mp hrun
    cases hrun
    exact h.alloc halloc
  | free b =>
    obtain ⟨⟨_, st₁⟩, hfree, hrun⟩ := bind_eq_ok.mp hrun
    cases hrun
    rw [h.ready.freeBlock] at hfree
    cases hfree
    split_ifs with hb
    · refine h.of_isFree (h.ready.setFree hb.2) (nblocks_storeWord ..) fun c hc hfree => ?_
      rcases (setFree_isFree st hb.2 c).mp hfree with hfree | rfl
      · exact hfree
      · rw [← h.nblocks] at hc
        exact absurd hspares (Nat.not_le.mpr hc)
    · exact h
  | read b =>
    obtain ⟨⟨isnew, st₁⟩, hread, hrun⟩ := bind_eq_ok.mp hrun
    cases hrun
    obtain ⟨-, -, ⟨-, rfl⟩ | ⟨hnone, mem, rfl⟩⟩ := readBlock_ok h.ready hread
    · exact h
    · have hready : Ready (st.withMem mem) := h.ready.of_mapped rfl rfl (fun _ hd => hd) (Nat.le_refl _)
      refine h.of_isFree (readBlock_contents h.ready hread).1 (nblocks_setPage hready hnone _) fun c _ hc => ?_
      exact (isFree_setPage hready hnone _ c).mp hc
  | store b i w =>
    simp only [ServOp.run] at hrun
    split_ifs at hrun with hb
    · rw [store_mapped hb] at hrun
      cases hrun
      have hplain := plain hb hspares.1 hspares.2
      exact h.of_isFree (hplain.ready h.ready w) (hplain.nblocks w) fun c _ hc => (hplain.isFree w c).mp hc
    · cases hrun
      exact h
  | client b i w =>
    cases hrun
    cases hb : st.cache b with
    | none =>
      unfold FsState.clientStore
      rw [hb]
      exact h
    | some p =>
      have hsome : (st.cache b).isSome := by rw [hb]; rfl
      have hplain := plain hsome hspares.1 hspares.2
      have hwords := (clientStore_same hsome i w).1
      have hn : (st.clientStore b i w).nblocks = st.nblocks := by
        rw [← hplain.nblocks w]
        unfold FsState.nblocks
        rw [hwords]
      exact h.of_isFree (clientStore_ready h.ready hplain w) hn fun c _ hc =>
        (hplain.isFree w c).mp ((isFree_congr hwords c).mp hc)
  | dirty b =>
    obtain ⟨⟨r, st₁⟩, hdirty, hrun⟩ := bind_eq_ok.mp hrun
    cases hrun
    have hwords := (dirtyBlock_same hdirty).1
    refine h.of_isFree (dirtyBlock_contents h.ready hdirty).1 ?_ fun c _ => (isFree_congr hwords c).mp
    unfold FsState.nblocks
    rw [hwords]
  | write b =>
    obtain ⟨⟨_, st₁⟩, hwrite, hrun⟩ := bind_eq_ok.mp hrun
    cases hrun
    obtain ⟨-, rfl⟩ := writeBlock_ok hwrite
    exact h.of_isFree (h.ready.of_mapped rfl rfl (fun _ hd => hd) (Nat.le_refl _)) rfl fun _ _ hc => hc
  | sync =>
    obtain ⟨⟨_, st₁⟩, hsync, hrun⟩ := bind_eq_ok.mp hrun
    cases hrun
    have hwords : st'.words = st.words := by
      unfold FsState.words
      rw [(fsSync_ok h.ready hsync).1]
    refine h.of_isFree (fsSync_contents h.ready hsync).1 ?_ fun c _ => (isFree_congr hwords c).mp
    unfold FsState.nblocks
    rw [hwords]

theorem reach (h : Spared st n) (hrun : ServReach Spares st st') : Spared st' n := by
  induction hrun with
  | refl => exact h
  | step _ hspares hop ih => exact ih.step hspares hop

/-- The allocator takes free blocks only. -/
theorem allocsData (h : Spared st n) : AllocsData st := by
  intro st₁ hreach c st₂ hrun
  have h₁ := h.reach hreach
  rw [h.nblocks]
  rcases h₁.ready.allocBlockNum with hnone | ⟨d, -, hfree, hnum⟩
  · rw [hnone] at hrun
    cases hrun
  · rw [hnum] at hrun
    cases hrun
    exact Nat.not_lt.mp fun hlt => h₁.inUse c hlt hfree

end Spared

-- ---------------------------------------------------------------------------
-- Every size
-- ---------------------------------------------------------------------------

/-- `user_assert(!block_is_free(b))` of a block in use. -/
theorem assertUsed_run (h : Ready st) (hb : ¬ st.isFree b) (f : Unit → FsM Unit) :
    (blockIsFree b >>= fun r => userAssert (!r) >>= f) st = f () st := by
  rw [run_bind (h.blockIsFree b), decide_eq_false hb]
  rfl

/-- The state of the assertions. -/
theorem readBitmap_reads (h : Early true (· < 2) st) (hf : Formatted st)
    (hmem : ∀ i < st.nblocks / BIT2BLK + 1, st.mem i = true) :
    ∃ st₁, BitmapRead st st₁ (st.nblocks / BIT2BLK + 1) ∧ readBitmap st = (do
      userAssert (!(← blockIsFree 0))
      userAssert (!(← blockIsFree 1))
      (List.range (st.nblocks / BIT2BLK + 1)).forM fun i => do
        userAssert (!(← blockIsFree (i + 2)))) { st₁ with bitmap := true } := by
  have hroom : st.nblocks / BIT2BLK + 1 + 2 ≤ st.nblocks := by
    have hroom := hf.room
    simp only [reserved, nbitblock, BIT2BLK, BY2BLK, BY2PG] at hroom ⊢
    omega
  obtain ⟨st₁, hrun, hread⟩ := readBlocks_run h hroom hmem
  refine ⟨st₁, hread, ?_⟩
  have hset : (modify fun st => { st with bitmap := true } : FsM PUnit) st₁ =
      .ok ((), { st₁ with bitmap := true }) := rfl
  unfold readBitmap
  exact (run_bind (h.sNblocks (by decide)) _).trans ((run_bind hrun _).trans (run_bind hset _))

theorem readBitmap_fits (h : Early true (· < 2) st) (hf : Formatted st)
    (hmem : ∀ i < st.nblocks / BIT2BLK + 1, st.mem i = true) (hne : st.nblocks % BIT2BLK ≠ 0) :
    ReadsBitmap st := by
  have hsize : st.nblocks / BIT2BLK + 1 + 2 = reserved st.nblocks := by
    rw [← (nbitblock_eq_iff hf.pos).mpr hne, reserved, Nat.add_comm]
  obtain ⟨st₁, hread, hrun⟩ := readBitmap_reads h hf hmem
  have hused : ∀ b < reserved st.nblocks, ¬ ({ st₁ with bitmap := true } : FsState).isFree b := by
    intro b hb hfree
    have hlt : b / BIT2BLK < st.nblocks / BIT2BLK + 1 :=
      Nat.lt_succ_of_le (Nat.div_le_div_right (Nat.le_trans (Nat.le_of_lt hb) hf.room))
    exact hf.inUse b hb ((hread.isFree hlt).mp hfree).2
  have hspared : Spared { st₁ with bitmap := true } st.nblocks := ⟨hread.ready, hread.nblocks, hused⟩
  have hge : 2 ≤ reserved st.nblocks := Nat.le_add_right 2 _
  refine ⟨{ st₁ with bitmap := true }, ?_, fun c => ?_, hspared.allocsData⟩
  · rw [hrun, assertUsed_run hread.ready (hused 0 (by omega)), assertUsed_run hread.ready (hused 1 (by omega))]
    refine forM_range_same _ fun i hi => ?_
    rw [run_bind (hread.ready.blockIsFree (i + 2)), decide_eq_false (hused (i + 2) (by omega))]
    rfl
  · have hcached : ((({ st₁ with bitmap := true } : FsState).cache c).isSome : Prop) ↔ _ := hread.early.cached c
    rw [hcached, h.cached, hsize]
    omega

/-- The block after the bitmap is read. -/
theorem readBitmap_multiple (h : Early true (· < 2) st) (hf : Formatted st)
    (hmem : ∀ i < st.nblocks / BIT2BLK + 1, st.mem i = true) (hz : st.nblocks % BIT2BLK = 0) :
    ¬ ReadsBitmap st := by
  rintro ⟨st', hok, hcached, -⟩
  have hpos := hf.pos
  have hsize : reserved st.nblocks = st.nblocks / BIT2BLK + 2 := by
    simp only [reserved, nbitblock, BIT2BLK, BY2BLK, BY2PG] at hz ⊢
    omega
  obtain ⟨st₁, hread, hrun⟩ := readBitmap_reads h hf hmem
  rw [hok] at hrun
  -- the assertions do not change what is cached
  have hsame : st' = { st₁ with bitmap := true } := by
    obtain ⟨_, st₂, hassert, hrun⟩ := run_bind_eq_ok.mp (run_bind (hread.ready.blockIsFree 0) _ ▸ hrun.symm)
    obtain ⟨-, rfl⟩ := userAssert_ok hassert
    rw [run_bind (hread.ready.blockIsFree 1)] at hrun
    obtain ⟨_, st₃, hassert, hrun⟩ := run_bind_eq_ok.mp hrun
    obtain ⟨-, rfl⟩ := userAssert_ok hassert
    refine forM_range_inv (fun _ s => s = { st₁ with bitmap := true }) _ rfl ?_ hrun
    rintro i - s s' rfl hbody
    rw [run_bind (hread.ready.blockIsFree _)] at hbody
    exact (userAssert_ok hbody).2.symm
  have hlast : (st'.cache (st.nblocks / BIT2BLK + 2)).isSome := by
    rw [hsame]
    exact (hread.early.cached _).mpr (by omega)
  rcases (hcached _).mp hlast with hold | ⟨-, hlt⟩
  · exact absurd ((h.cached _).mp hold) (Nat.not_lt.mpr (Nat.le_add_left 2 _))
  · rw [hsize] at hlt
    exact absurd hlt (Nat.lt_irrefl _)

/-- **The bitmap at every size.** When `fs_init` comes to `read_bitmap`, on a disk that is
laid out as `fsformat` does and with pages for the bitmap. -/
theorem readBitmap_iff (h : Early true (· < 2) st) (hf : Formatted st)
    (hmem : ∀ i < st.nblocks / BIT2BLK + 1, st.mem i = true) :
    ReadsBitmap st ↔ st.nblocks % BIT2BLK ≠ 0 :=
  ⟨fun hreads hz => readBitmap_multiple h hf hmem hz hreads, readBitmap_fits h hf hmem⟩

/-- `fs_init` has read the super block. -/
def superRead (disk : Nat → Block) : FsState :=
  { emptyCache disk fun _ => true with
    cache := fun b => if b < 2 then some ⟨disk b, true⟩ else none
    super := true }

theorem superRead_early (disk : Nat → Block) : Early true (· < 2) (superRead disk) where
  super := rfl
  bitmap := rfl
  cached c := by
    show (if c < 2 then some (⟨disk c, true⟩ : CachePage) else none).isSome ↔ _
    split_ifs with hc <;> simp [hc]

theorem readBitmap_iff_small : ReadsBitmap (superRead smallDisk) :=
  (readBitmap_iff (superRead_early smallDisk) ⟨by decide, by decide⟩ fun _ _ => rfl).mpr (by decide)

/-- A disk whose bits fill the one bitmap block. Block 3 is free. -/
def fullBitmapDisk : Nat → Block := fun b i =>
  if b = 1 ∧ i = 0 then FS_MAGIC
  else if b = 1 ∧ i = 1 then 32768#32
  else if b = 2 ∧ i = 0 then 0b1000#32
  else 0#32

/-- `read_bitmap` takes block 3 for a bitmap block. -/
theorem fsInit_multiple :
    Formatted (superRead fullBitmapDisk) ∧ ¬ ReadsBitmap (superRead fullBitmapDisk) ∧
      fsInit (emptyCache fullBitmapDisk fun _ => true) = .error .userAssert := by
  have hf : Formatted (superRead fullBitmapDisk) := ⟨by decide, by decide⟩
  exact ⟨hf, readBitmap_multiple (superRead_early _) hf (fun _ _ => rfl) (by decide), rfl⟩

end Mos.Fs
