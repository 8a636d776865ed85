import Mos.Fs.Layout
import Mos.Fs.ReadBitmap

/-!
# MOS on RISC-V — a disk that the server starts on

`fs_init` comes to its end on every disk with the right super block and with a bitmap
that has the reserved blocks in use, if the kernel has pages for what it caches
(`fsInit_run`). The test of `check_write_block` leaves the disk as it was; the page of
the boot block is left with a copy of the super block.
-/

namespace Mos.Fs

open Mos.Lib Mos.Kern

variable {st : FsState} {disk : Nat → Block} {mem : Nat → Bool} {b : Nat}

-- ---------------------------------------------------------------------------
-- Before there is a super block
-- ---------------------------------------------------------------------------

/-- `read_block` of a block that is not cached, while `super` and `bitmap` are null. -/
theorem readBlock_null (hsuper : st.super = false) (hbitmap : st.bitmap = false)
    (hnone : st.cache b = none) (hmem : st.mem 0 = true) :
    readBlock b st = .ok (true, st.asked.setPage b (some ⟨st.disk b, true⟩)) := by
  have hexists : checkExists b st = .ok ((), st) := by
    unfold checkExists
    rw [run_get, hsuper]
    rfl
  have hused : checkUsed b st = .ok ((), st) := by
    unfold checkUsed
    rw [run_get, hbitmap]
    rfl
  have hmap : blockIsMapped b st = .ok ((st.cache b).isSome, st) := rfl
  have hnot : ¬ (st.cache b).isSome = true := by simp [hnone]
  have halloc := syscallMemAlloc_run b st
  rw [if_pos hmem] at halloc
  have hstore : storeBlock b (st.disk b) (st.asked.setPage b (some ⟨zeroBlock, false⟩)) =
      .ok ((), st.asked.setPage b (some ⟨st.disk b, true⟩)) := by
    have hmapped : ((st.asked.setPage b (some ⟨zeroBlock, false⟩)).cache b).isSome := by
      rw [FsState.setPage_self]
      rfl
    obtain ⟨p, -, -, hacc⟩ := access_mapped hmapped
    unfold storeBlock
    rw [run_bind hacc]
    unfold FsState.setPage
    exact congrArg (fun cache => Except.ok ((), { st.asked with cache := cache })) (Function.update_idem ..)
  unfold readBlock
  rw [run_bind hexists, run_bind hused, run_bind hmap, if_neg hnot, run_bind halloc, run_get]
  exact run_bind hstore _

/-- The state of `fs_init` before the bitmap is read: the pages of blocks 0 and 1. -/
def early (disk : Nat → Block) (mem : Nat → Bool) (super : Bool) (p₀ p₁ : Option CachePage) : FsState where
  disk := disk
  cache := fun b => if b = 0 then p₀ else if b = 1 then p₁ else none
  super := super
  bitmap := false
  mem := mem

section

variable {super : Bool} {p₀ p₁ : Option CachePage} {p : CachePage} {ws : Block}

theorem early_one (disk : Nat → Block) (mem : Nat → Bool) (super : Bool) (p₀ p₁ p : Option CachePage) :
    (early disk mem super p₀ p₁).setPage 1 p = early disk mem super p₀ p := by
  have hcache : Function.update (fun b => if b = 0 then p₀ else if b = 1 then p₁ else none) 1 p =
      fun b => if b = 0 then p₀ else if b = 1 then p else none := by
    funext b
    by_cases hb : b = 1
    · subst hb
      simp
    · simp [hb]
  exact congrArg (fun cache => ({ disk, cache, super, bitmap := false, mem } : FsState)) hcache

theorem early_zero (disk : Nat → Block) (mem : Nat → Bool) (super : Bool) (p₀ p₁ p : Option CachePage) :
    (early disk mem super p₀ p₁).setPage 0 p = early disk mem super p p₁ := by
  have hcache : Function.update (fun b => if b = 0 then p₀ else if b = 1 then p₁ else none) 0 p =
      fun b => if b = 0 then p else if b = 1 then p₁ else none := by
    funext b
    by_cases hb : b = 0
    · subst hb
      simp
    · simp [hb]
  exact congrArg (fun cache => ({ disk, cache, super, bitmap := false, mem } : FsState)) hcache

theorem early_read_one (disk : Nat → Block) (mem : Nat → Bool) (p₀ : Option CachePage)
    (hmem : mem 0 = true) :
    readBlock 1 (early disk mem false p₀ none) =
      .ok (true, early disk (fun n => mem (n + 1)) false p₀ (some ⟨disk 1, true⟩)) := by
  rw [readBlock_null rfl rfl rfl hmem]
  exact congrArg (fun st => Except.ok (true, st)) (early_one ..)

theorem early_read_zero (disk : Nat → Block) (p₁ : Option CachePage) (hmem : mem 0 = true) :
    readBlock 0 (early disk mem false none p₁) =
      .ok (true, early disk (fun n => mem (n + 1)) false (some ⟨disk 0, true⟩) p₁) := by
  rw [readBlock_null rfl rfl rfl hmem]
  exact congrArg (fun st => Except.ok (true, st)) (early_zero ..)

theorem early_access_zero (p₀ : CachePage) :
    access 0 (early disk mem super (some p₀) p₁) = .ok (p₀, early disk mem super (some p₀) p₁) := rfl

theorem early_access_one (p₁ : CachePage) :
    access 1 (early disk mem super p₀ (some p₁)) = .ok (p₁, early disk mem super p₀ (some p₁)) := rfl

theorem early_store_zero (p₀ : CachePage) (ws : Block) :
    storeBlock 0 ws (early disk mem super (some p₀) p₁) =
      .ok ((), early disk mem super (some ⟨ws, true⟩) p₁) := by
  unfold storeBlock
  rw [run_bind (early_access_zero p₀)]
  exact congrArg (fun st => Except.ok ((), st)) (early_zero ..)

theorem early_store_one (p₁ : CachePage) (ws : Block) :
    storeBlock 1 ws (early disk mem super p₀ (some p₁)) =
      .ok ((), early disk mem super p₀ (some ⟨ws, true⟩)) := by
  unfold storeBlock
  rw [run_bind (early_access_one p₁)]
  exact congrArg (fun st => Except.ok ((), st)) (early_one ..)

theorem early_word (p₁ : CachePage) (i : Fin 1024) (w : BitVec 32) :
    store 1 i w (early disk mem super p₀ (some p₁)) =
      .ok ((), early disk mem super p₀ (some ⟨Function.update p₁.words i w, true⟩)) := by
  unfold store
  rw [run_bind (early_access_one p₁)]
  exact congrArg (fun st => Except.ok ((), st)) (early_one ..)

theorem early_load (p₁ : CachePage) (i : Fin 1024) :
    load 1 i (early disk mem super p₀ (some p₁)) =
      .ok (p₁.words i, early disk mem super p₀ (some p₁)) := rfl

theorem early_write (p₁ : CachePage) :
    writeBlock 1 (early disk mem super p₀ (some p₁)) =
      .ok ((), early (Function.update disk 1 p₁.words) mem super p₀ (some p₁)) := rfl

end

-- ---------------------------------------------------------------------------
-- read_super and check_write_block
-- ---------------------------------------------------------------------------

theorem readSuper_run (hmagic : disk 1 0 = FS_MAGIC) (hsize : (disk 1 1).toNat ≤ DISKMAX / BY2BLK)
    (hmem : mem 0 = true) :
    readSuper (emptyCache disk mem) =
      .ok ((), early disk (fun n => mem (n + 1)) true none (some ⟨disk 1, true⟩)) := by
  have hempty : emptyCache disk mem = early disk mem false none none := by
    unfold emptyCache early
    congr 1
    funext b
    split_ifs <;> rfl
  have hset : (modify fun st => { st with super := true } : FsM PUnit)
      (early disk (fun n => mem (n + 1)) false none (some ⟨disk 1, true⟩)) =
      .ok ((), early disk (fun n => mem (n + 1)) true none (some ⟨disk 1, true⟩)) := rfl
  have hn : sNblocks (early disk (fun n => mem (n + 1)) true none (some ⟨disk 1, true⟩)) =
      .ok (disk 1 1, early disk (fun n => mem (n + 1)) true none (some ⟨disk 1, true⟩)) := rfl
  have hgood : decide (disk 1 0 ≠ FS_MAGIC) = false := decide_eq_false (not_not.mpr hmagic)
  have hfits : decide (DISKMAX / BY2BLK < (disk 1 1).toNat) = false :=
    decide_eq_false (Nat.not_lt.mpr hsize)
  rw [hempty]
  unfold readSuper
  rw [run_bind (early_read_one disk mem none hmem), run_bind hset, run_bind (early_load _ 0)]
  show (userPanicIf (decide (disk 1 0 ≠ FS_MAGIC)) >>= _) _ = _
  have hpass : ∀ st, userPanicIf false st = .ok ((), st) := fun _ => rfl
  rw [hgood, run_bind (hpass _), run_bind hn, hfits]
  exact hpass _

/-- `check_write_block` reads back what it wrote, and puts the super block back. -/
theorem checkWriteBlock_run (disk : Nat → Block) (mem : Nat → Bool) (hmem : ∀ n < 2, mem n = true) :
    checkWriteBlock (early disk mem true none (some ⟨disk 1, true⟩)) =
      .ok ((), early disk (fun n => mem (n + 2)) true (some ⟨disk 1, true⟩) (some ⟨disk 1, true⟩)) := by
  obtain ⟨ws, hws⟩ : ∃ ws, ws = Function.update (Function.update (disk 1) 0 0x53504f4f#32) 1
      (((disk 1 1 &&& 0xff000000#32) ||| 0x000a21#32)) := ⟨_, rfl⟩
  have hclear : (modify fun st => { st with super := false } : FsM PUnit)
      (early disk mem true none (some ⟨disk 1, true⟩)) =
      .ok ((), early disk mem false none (some ⟨disk 1, true⟩)) := rfl
  -- the super block is smashed
  have hsmash : ∀ m, smashSuper (early disk m false (some ⟨disk 1, true⟩) (some ⟨disk 1, true⟩)) =
      .ok ((), early disk m false (some ⟨disk 1, true⟩) (some ⟨ws, true⟩)) := by
    intro m
    unfold smashSuper
    rw [run_bind (early_word _ 0 _), run_bind (early_load _ 1), early_word, hws]
    rfl
  have hdrop : ∀ m, (modify fun st => st.setPage 1 none : FsM PUnit)
      (early (Function.update disk 1 ws) m false (some ⟨disk 1, true⟩) (some ⟨ws, true⟩)) =
      .ok ((), early (Function.update disk 1 ws) m false (some ⟨disk 1, true⟩) none) := fun m =>
    congrArg (fun st => Except.ok ((), st)) (early_one ..)
  have hback : Function.update disk 1 ws 1 = ws := Function.update_self ..
  have hword : ws 0 = 0x53504f4f#32 ∧ ws 1 &&& 0xffffff#32 = 0x000a21#32 := by
    have h0 : ws 0 = 0x53504f4f#32 := by
      rw [hws, Function.update_of_ne (by decide), Function.update_self]
    have h1 : ws 1 = (disk 1 1 &&& 0xff000000#32) ||| 0x000a21#32 := by
      rw [hws, Function.update_self]
    refine ⟨h0, ?_⟩
    have hlow : (0xff000000#32 : BitVec 32) &&& 0xffffff#32 = 0#32 := by decide
    have hkeep : (0x000a21#32 : BitVec 32) &&& 0xffffff#32 = 0x000a21#32 := by decide
    rw [h1, BitVec.and_or_distrib_right, BitVec.and_assoc, hlow, hkeep, BitVec.and_zero, BitVec.zero_or]
  have hrestore : Function.update (Function.update disk 1 ws) 1 (disk 1) = disk := by
    rw [Function.update_idem, Function.update_eq_self]
  have hread := early_read_one (Function.update disk 1 ws) (fun n => mem (n + 1)) (some ⟨disk 1, true⟩)
    (hmem 1 (by decide))
  rw [hback] at hread
  have hsmashed : superIsSmashed (early (Function.update disk 1 ws) (fun n => mem (n + 2)) false
      (some ⟨disk 1, true⟩) (some ⟨ws, true⟩)) =
      .ok (true, early (Function.update disk 1 ws) (fun n => mem (n + 2)) false (some ⟨disk 1, true⟩)
        (some ⟨ws, true⟩)) := by
    unfold superIsSmashed
    rw [run_bind (early_load _ 0), run_bind (early_load _ 1)]
    show Except.ok (decide (ws 0 = _ ∧ ws 1 &&& _ = _), _) = _
    rw [decide_eq_true hword]
  have hassert : ∀ st, userAssert true st = .ok ((), st) := fun _ => rfl
  unfold checkWriteBlock
  rw [run_bind hclear, run_bind (early_read_zero disk _ (hmem 0 (by decide))), run_bind (early_access_one _),
    run_bind (early_store_zero _ _), run_bind (hsmash _), run_bind (early_write _), run_bind (hdrop _),
    run_bind hread, run_bind hsmashed, run_bind (hassert _), run_bind (early_access_zero _),
    run_bind (early_store_one _ _), run_bind (early_write _), hrestore]
  rfl

-- ---------------------------------------------------------------------------
-- fs_init
-- ---------------------------------------------------------------------------

/-- The server has started: it sees the disk, and has the super block and the bitmap cached. -/
structure Started (disk : Nat → Block) (st : FsState) : Prop where
  ready : Ready st
  size : st.nblocks = (disk 1 1).toNat
  contents : ∀ b, b ≠ 0 → st.contents b = disk b
  bits : ∀ b, st.isFree b ↔ b < (disk 1 1).toNat ∧ (superRead disk).diskBits.isSet b

/-- **The start.** -/
theorem fsInit_run (hmagic : disk 1 0 = FS_MAGIC) (hsize : (disk 1 1).toNat ≤ DISKMAX / BY2BLK)
    (hf : Formatted (superRead disk)) (hne : (disk 1 1).toNat % BIT2BLK ≠ 0)
    {k : Nat} (hk : (disk 1 1).toNat / BIT2BLK = k) (hmem : ∀ n < k + 4, mem n = true) :
    ∃ st, fsInit (emptyCache disk mem) = .ok ((), st) ∧ Started disk st ∧ Asked (emptyCache disk mem) st := by
  obtain ⟨s₁, hs₁⟩ : ∃ s₁, s₁ = early disk (fun n => mem (n + 1 + 2)) true (some ⟨disk 1, true⟩)
    (some ⟨disk 1, true⟩) := ⟨_, rfl⟩
  have hsuper := readSuper_run hmagic hsize (hmem 0 (by omega))
  have hcheck : checkWriteBlock (early disk (fun n => mem (n + 1)) true none (some ⟨disk 1, true⟩)) =
      .ok ((), s₁) := by
    rw [hs₁]
    exact checkWriteBlock_run disk (fun n => mem (n + 1)) fun n hn => hmem (n + 1) (by omega)
  have h₁ : Early true (· < 2) s₁ := by
    rw [hs₁]
    refine ⟨rfl, rfl, fun c => ?_⟩
    show (if c = 0 then some (⟨disk 1, true⟩ : CachePage) else if c = 1 then some ⟨disk 1, true⟩
      else none).isSome ↔ _
    split_ifs with h0 h1
    · simp [h0]
    · simp [h1]
    · simp
      omega
  have hn : s₁.nblocks = (disk 1 1).toNat := by
    rw [hs₁]
    rfl
  have hdisk : s₁.disk = disk := by
    rw [hs₁]
    rfl
  have hbits : s₁.diskBits = (superRead disk).diskBits := by
    unfold FsState.diskBits
    rw [hdisk]
    rfl
  have hf₁ : Formatted s₁ := by
    refine ⟨?_, ?_⟩
    · rw [hn]
      exact hf.room
    · rw [hn, hbits]
      exact hf.inUse
  have hmem₁ : ∀ i < s₁.nblocks / BIT2BLK + 1, s₁.mem i = true := by
    rw [hn, hk, hs₁]
    intro i hi
    exact hmem (i + 1 + 2) (by omega)
  obtain ⟨s₂, hread, hrun⟩ := readBitmap_reads h₁ hf₁ hmem₁
  have hmult : s₁.nblocks % BIT2BLK ≠ 0 := by
    rw [hn]
    exact hne
  have hfit : s₁.nblocks / BIT2BLK + 1 + 2 = reserved s₁.nblocks := by
    rw [← (nbitblock_eq_iff hf₁.pos).mpr hmult, reserved, Nat.add_comm]
  have hfree : ∀ b, ({ s₂ with bitmap := true } : FsState).isFree b ↔
      b < (disk 1 1).toNat ∧ (superRead disk).diskBits.isSet b := by
    intro b
    by_cases hlt : b < s₁.nblocks
    · have hword : b / BIT2BLK < s₁.nblocks / BIT2BLK + 1 :=
        Nat.lt_succ_of_le (Nat.div_le_div_right (Nat.le_of_lt hlt))
      rw [hread.isFree hword, hn, hbits]
    · rw [hn] at hlt
      refine ⟨fun hc => absurd hc.1 ?_, fun hc => absurd hc.1 hlt⟩
      have hsame : ({ s₂ with bitmap := true } : FsState).nblocks = s₁.nblocks := hread.nblocks
      rw [hsame, hn]
      exact hlt
  have hused : ∀ b < reserved s₁.nblocks, ¬ ({ s₂ with bitmap := true } : FsState).isFree b := by
    intro b hb hc
    refine hf₁.inUse b hb ?_
    rw [hbits]
    exact ((hfree b).mp hc).2
  have hlow : 2 ≤ reserved s₁.nblocks := Nat.le_add_right 2 _
  have hinit : fsInit (emptyCache disk mem) = .ok ((), { s₂ with bitmap := true }) := by
    unfold fsInit
    rw [run_bind hsuper, run_bind hcheck, hrun]
    rw [assertUsed_run hread.ready (hused 0 (by omega)), assertUsed_run hread.ready (hused 1 (by omega))]
    refine forM_range_same _ fun i hi => ?_
    rw [run_bind (hread.ready.blockIsFree (i + 2)), decide_eq_false (hused (i + 2) (by omega))]
    rfl
  have hasked : Asked (emptyCache disk mem) { s₂ with bitmap := true } := by
    refine ⟨s₁.nblocks / BIT2BLK + 1 + 3, fun n => ?_⟩
    show s₂.mem n = mem _
    rw [hread.mem, hs₁]
    rfl
  refine ⟨_, hinit, ⟨hread.ready, hread.nblocks.trans hn, fun b hb => ?_, hfree⟩, hasked⟩
  -- block 1, a block of the bitmap, or one that is not cached
  by_cases hcached : (s₂.cache b).isSome
  · have hwords : ({ s₂ with bitmap := true } : FsState).contents b = s₂.words b :=
      contents_mapped hcached
    have hlt := (hread.early.cached b).mp hcached
    rw [hwords]
    by_cases h1 : b = 1
    · rw [h1, hread.super, hs₁]
      rfl
    · obtain ⟨i, rfl⟩ : ∃ i, b = i + 2 := ⟨b - 2, by omega⟩
      rw [hread.blocks i (by omega), hdisk]
  · have hnone : s₂.cache b = none := by
      simpa using hcached
    have hwords : ({ s₂ with bitmap := true } : FsState).contents b = s₂.disk b :=
      contents_unmapped hnone
    rw [hwords, hread.disk, hdisk]

end Mos.Fs
