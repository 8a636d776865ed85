import Mos.Fs.Cache

/-!
# MOS on RISC-V — the block cache at work

What the functions of the block cache do once `fs_init` has run: the super block
and the bitmap blocks are cached (`Ready`), so `s_nblocks` and the bitmap are read
without a page fault. There is one lemma for each function, and one for each
operation on the bitmap that says what becomes of the free blocks.
-/

namespace Mos.Fs

open Mos.Lib Mos.Kern

variable {st st' : FsState} {b c : Nat}

namespace FsState

variable (st : FsState)

/-- What is at `diskaddr(b)`. -/
def words (b : Nat) : Block :=
  match st.cache b with
  | some p => p.words
  | none => zeroBlock

/-- `s_nblocks`. -/
def nblocks : Nat := (st.words 1 1).toNat

/-- The words of the bitmap. -/
def bits : Bitmap := fun i => st.words (bitmapBlock i) (Fin.ofNat 1024 i)

/-- `block_is_free`. -/
def isFree (b : Nat) : Prop := b < st.nblocks ∧ st.bits.isSet b

instance (b : Nat) : Decidable (st.isFree b) := inferInstanceAs (Decidable (_ ∧ _))

/-- A word of a block, stored by the server. -/
def storeWord (b : Nat) (i : Fin 1024) (w : BitVec 32) : FsState :=
  st.setPage b (some ⟨Function.update (st.words b) i w, true⟩)

@[simp] theorem setDisk_words (b : Nat) (ws : Block) : (st.setDisk b ws).words = st.words := rfl
@[simp] theorem setDisk_nblocks (b : Nat) (ws : Block) : (st.setDisk b ws).nblocks = st.nblocks := rfl
@[simp] theorem setDisk_bits (b : Nat) (ws : Block) : (st.setDisk b ws).bits = st.bits := rfl

theorem words_of_cache {b : Nat} {p : CachePage} (h : st.cache b = some p) : st.words b = p.words := by
  unfold words
  rw [h]

theorem setPage_words (b c : Nat) (p : CachePage) :
    (st.setPage b (some p)).words c = if c = b then p.words else st.words c := by
  unfold words
  split_ifs with h
  · rw [h, setPage_self]
  · rw [setPage_of_ne st h]

theorem storeWord_words (b c : Nat) (i : Fin 1024) (w : BitVec 32) :
    (st.storeWord b i w).words c = if c = b then Function.update (st.words b) i w else st.words c :=
  setPage_words ..

/-- A store keeps what is mapped, but for the dirty bit. -/
theorem storeWord_isSome {b : Nat} (h : (st.cache b).isSome) (c : Nat) (i : Fin 1024) (w : BitVec 32) :
    ((st.storeWord b i w).cache c).isSome = (st.cache c).isSome := by
  unfold storeWord
  by_cases hc : c = b
  · rw [hc, setPage_self, h]
    rfl
  · rw [setPage_of_ne st hc]

end FsState

-- ---------------------------------------------------------------------------
-- The bitmap
-- ---------------------------------------------------------------------------

theorem bitmapBlock_shift (b : Nat) : bitmapBlock (b >>> 5) = b / BIT2BLK + 2 := by
  unfold bitmapBlock BIT2BLK BY2BLK BY2PG
  rw [Nat.shiftRight_eq_div_pow, Nat.div_div_eq_div_mul]
  omega

theorem bitmapBlock_ne_one (i : Nat) : bitmapBlock i ≠ 1 := by
  unfold bitmapBlock
  omega

/-- A store to a word of the bitmap. -/
theorem bits_storeWord (st : FsState) (i : Nat) (w : BitVec 32) :
    (st.storeWord (bitmapBlock i) (Fin.ofNat 1024 i) w).bits = Function.update st.bits i w := by
  funext j
  unfold FsState.bits
  rw [FsState.storeWord_words]
  by_cases hj : j = i
  · rw [hj, if_pos rfl, Function.update_self, Function.update_self]
  · rw [Function.update_of_ne hj]
    split_ifs with hb
    · have hi : Fin.ofNat 1024 j ≠ Fin.ofNat 1024 i := by
        intro heq
        have hmod : j % 1024 = i % 1024 := congrArg Fin.val heq
        unfold bitmapBlock at hb
        omega
      rw [Function.update_of_ne hi, hb]
    · rfl

theorem nblocks_storeWord (st : FsState) (i : Nat) (j : Fin 1024) (w : BitVec 32) :
    (st.storeWord (bitmapBlock i) j w).nblocks = st.nblocks := by
  unfold FsState.nblocks
  rw [FsState.storeWord_words, if_neg (bitmapBlock_ne_one i).symm]

/-- `bitmap[b / 32] |= 1 << b % 32`. -/
def FsState.setFree (st : FsState) (b : Nat) : FsState :=
  st.storeWord (bitmapBlock (b >>> 5)) (Fin.ofNat 1024 (b >>> 5)) (st.bits (b >>> 5) ||| Bitmap.mask b)

/-- `bitmap[b / 32] &= ~(1 << b % 32)`. -/
def FsState.setUsed (st : FsState) (b : Nat) : FsState :=
  st.storeWord (bitmapBlock (b >>> 5)) (Fin.ofNat 1024 (b >>> 5))
    (st.bits (b >>> 5) &&& ~~~Bitmap.mask b)

theorem setFree_isFree (st : FsState) (hb : b < st.nblocks) (c : Nat) :
    (st.setFree b).isFree c ↔ st.isFree c ∨ c = b := by
  unfold FsState.isFree FsState.setFree
  rw [nblocks_storeWord, bits_storeWord]
  have hset : (Bitmap.set st.bits b).isSet c ↔ _ := Bitmap.isSet_set st.bits b c
  unfold Bitmap.set at hset
  rw [hset]
  constructor
  · rintro ⟨hc, h | h⟩
    · exact Or.inl ⟨hc, h⟩
    · exact Or.inr h
  · rintro (⟨hc, h⟩ | h)
    · exact ⟨hc, Or.inl h⟩
    · exact ⟨by rw [h]; exact hb, Or.inr h⟩

theorem setUsed_isFree (st : FsState) (b c : Nat) :
    (st.setUsed b).isFree c ↔ st.isFree c ∧ c ≠ b := by
  unfold FsState.isFree FsState.setUsed
  rw [nblocks_storeWord, bits_storeWord]
  have hclear : (Bitmap.clear st.bits b).isSet c ↔ _ := Bitmap.isSet_clear st.bits b c
  unfold Bitmap.clear at hclear
  rw [hclear, and_assoc]

-- ---------------------------------------------------------------------------
-- What each function does
-- ---------------------------------------------------------------------------

/-- The super block and the bitmap are cached. -/
structure Ready (st : FsState) : Prop where
  super : st.super = true
  bitmap : st.bitmap = true
  superPage : (st.cache 1).isSome
  bitmapPage : ∀ b < st.nblocks, (st.cache (b / BIT2BLK + 2)).isSome

theorem access_mapped (h : (st.cache b).isSome) :
    ∃ p, st.cache b = some p ∧ p.words = st.words b ∧ access b st = .ok (p, st) := by
  obtain ⟨p, hp⟩ := Option.isSome_iff_exists.mp h
  refine ⟨p, hp, (st.words_of_cache hp).symm, ?_⟩
  unfold access
  rw [run_get]
  simp only [hp]
  rfl

theorem load_mapped (h : (st.cache b).isSome) (i : Fin 1024) :
    load b i st = .ok (st.words b i, st) := by
  obtain ⟨p, -, hw, hacc⟩ := access_mapped h
  unfold load
  rw [run_bind hacc, hw]
  rfl

theorem store_mapped (h : (st.cache b).isSome) (i : Fin 1024) (w : BitVec 32) :
    store b i w st = .ok ((), st.storeWord b i w) := by
  obtain ⟨p, -, hw, hacc⟩ := access_mapped h
  unfold store
  rw [run_bind hacc, hw]
  rfl

theorem sNblocks_mapped (hsuper : st.super = true) (hpage : (st.cache 1).isSome) :
    sNblocks st = .ok (st.words 1 1, st) := by
  unfold sNblocks
  rw [run_get, if_pos hsuper]
  exact load_mapped hpage 1

namespace Ready

theorem sNblocks (h : Ready st) : sNblocks st = .ok (st.words 1 1, st) :=
  sNblocks_mapped h.super h.superPage

theorem page (h : Ready st) (hb : b < st.nblocks) : (st.cache (bitmapBlock (b >>> 5))).isSome := by
  rw [bitmapBlock_shift]
  exact h.bitmapPage b hb

theorem bitmapLoad (h : Ready st) (hb : b < st.nblocks) :
    bitmapLoad (b >>> 5) st = .ok (st.bits (b >>> 5), st) := by
  unfold Fs.bitmapLoad
  rw [run_get, if_pos h.bitmap]
  exact load_mapped (h.page hb) _

theorem bitmapStore (h : Ready st) (hb : b < st.nblocks) (w : BitVec 32) :
    bitmapStore (b >>> 5) w st =
      .ok ((), st.storeWord (bitmapBlock (b >>> 5)) (Fin.ofNat 1024 (b >>> 5)) w) := by
  unfold Fs.bitmapStore
  rw [run_get, if_pos h.bitmap]
  exact store_mapped (h.page hb) _ w

theorem blockIsFree (h : Ready st) (b : Nat) : blockIsFree b st = .ok (decide (st.isFree b), st) := by
  unfold Fs.blockIsFree
  rw [run_get]
  simp only [h.super, Bool.not_true, Bool.false_eq_true, if_false]
  rw [run_bind h.sNblocks]
  show (if st.nblocks ≤ b then (pure false : FsM Bool) else _) st = _
  by_cases hb : st.nblocks ≤ b
  · rw [if_pos hb]
    have : ¬ st.isFree b := fun hf => Nat.not_lt.mpr hb hf.1
    rw [decide_eq_false this]
    rfl
  · have hlt : b < st.nblocks := Nat.not_le.mp hb
    rw [if_neg hb, run_bind (h.bitmapLoad hlt)]
    have : st.isFree b ↔ st.bits (b >>> 5) &&& Bitmap.mask b ≠ 0#32 := and_iff_right hlt
    rw [decide_eq_decide.mpr this]
    rfl

/-- The invariant is about what is mapped, and `s_nblocks`. -/
theorem of_mapped (h : Ready st) (hsuper : st'.super = st.super) (hbitmap : st'.bitmap = st.bitmap)
    (hcache : ∀ c, (st.cache c).isSome → (st'.cache c).isSome) (hn : st'.nblocks ≤ st.nblocks) :
    Ready st' where
  super := hsuper.trans h.super
  bitmap := hbitmap.trans h.bitmap
  superPage := hcache 1 h.superPage
  bitmapPage b hb := hcache _ (h.bitmapPage b (Nat.lt_of_lt_of_le hb hn))

theorem storeWord (h : Ready st) (hb : (st.cache b).isSome) (i : Fin 1024) (w : BitVec 32)
    (hn : (st.storeWord b i w).nblocks ≤ st.nblocks) : Ready (st.storeWord b i w) :=
  h.of_mapped rfl rfl (fun c hc => by rw [st.storeWord_isSome hb]; exact hc) hn

theorem setFree (h : Ready st) (hb : b < st.nblocks) : Ready (st.setFree b) :=
  h.storeWord (h.page hb) _ _ (Nat.le_of_eq (nblocks_storeWord ..))

theorem setUsed (h : Ready st) (hb : b < st.nblocks) : Ready (st.setUsed b) :=
  h.storeWord (h.page hb) _ _ (Nat.le_of_eq (nblocks_storeWord ..))

end Ready

@[simp] theorem withMem_words (st : FsState) (mem : Nat → Bool) : (st.withMem mem).words = st.words :=
  rfl

theorem setPage_setPage (st : FsState) (b : Nat) (p q : Option CachePage) :
    (st.setPage b p).setPage b q = st.setPage b q := by
  unfold FsState.setPage
  rw [Function.update_idem]

/-- A page of zeros is mapped, or the request fails. -/
theorem syscallMemAlloc_ok {r : Int} (h : syscallMemAlloc b st = .ok (r, st')) :
    ∃ mem, (r = 0 ∧ st' = (st.withMem mem).setPage b (some ⟨zeroBlock, false⟩)) ∨
      (r = -E_NO_MEM ∧ st' = st.withMem mem) := by
  refine ⟨fun n => st.mem (n + 1), ?_⟩
  unfold syscallMemAlloc at h
  obtain ⟨a, st₁, hask, h⟩ := run_bind_eq_ok.mp h
  cases hask
  cases hm : st.mem 0 with
  | true =>
    rw [hm] at h
    cases h
    exact Or.inl ⟨rfl, rfl⟩
  | false =>
    rw [hm] at h
    cases h
    exact Or.inr ⟨rfl, rfl⟩

/-- A page is mapped at `diskaddr(b)`, and holds `ws`. -/
theorem storeBlock_ok {ws : Block} (h : storeBlock b ws st = .ok ((), st')) :
    ∃ mem, st' = (st.withMem mem).setPage b (some ⟨ws, true⟩) := by
  unfold storeBlock at h
  obtain ⟨p, st₁, hacc, h⟩ := run_bind_eq_ok.mp h
  cases h
  unfold access at hacc
  obtain ⟨_, _, hget, hacc⟩ := run_bind_eq_ok.mp hacc
  cases hget
  cases hc : st.cache b with
  | some q =>
    rw [hc] at hacc
    cases hacc
    exact ⟨st.mem, rfl⟩
  | none =>
    rw [hc] at hacc
    obtain ⟨a, st₂, hask, hacc⟩ := run_bind_eq_ok.mp hacc
    cases hask
    cases hm : st.mem 0 with
    | true =>
      rw [hm] at hacc
      cases hacc
      exact ⟨fun n => st.mem (n + 1), setPage_setPage ..⟩
    | false =>
      rw [hm] at hacc
      cases hacc

theorem userPanicIf_ok {p : Bool} (h : userPanicIf p st = .ok ((), st')) : p = false ∧ st = st' := by
  cases p with
  | true => cases h
  | false =>
    cases h
    exact ⟨rfl, rfl⟩

theorem userAssert_ok {p : Bool} (h : userAssert p st = .ok ((), st')) : p = true ∧ st = st' := by
  cases p with
  | true =>
    cases h
    exact ⟨rfl, rfl⟩
  | false => cases h

theorem checkExists_ok (hsuper : st.super = true → (st.cache 1).isSome)
    (h : checkExists b st = .ok ((), st')) : st = st' ∧ (st.super = true → b < st.nblocks) := by
  unfold checkExists at h
  rw [run_get] at h
  cases hs : st.super with
  | false =>
    rw [hs] at h
    cases h
    exact ⟨rfl, nofun⟩
  | true =>
    rw [hs, if_pos rfl, run_bind (sNblocks_mapped hs (hsuper hs))] at h
    obtain ⟨hb, rfl⟩ := userPanicIf_ok h
    exact ⟨rfl, fun _ => Nat.not_le.mp (of_decide_eq_false hb)⟩

/-- Steps 3 and 4 of `read_block`: a block that is not cached is read from the disk. -/
theorem readBlock_fetch (hexists : checkExists b st = .ok ((), st))
    (hused : checkUsed b st = .ok ((), st)) {isnew : Bool} (hrun : readBlock b st = .ok (isnew, st')) :
    ((st.cache b).isSome ∧ st' = st) ∨
      (st.cache b = none ∧ ∃ mem, st' = (st.withMem mem).setPage b (some ⟨st.disk b, true⟩)) := by
  unfold readBlock at hrun
  rw [run_bind hexists, run_bind hused] at hrun
  obtain ⟨m, st₁, hmap, hrun⟩ := run_bind_eq_ok.mp hrun
  cases hmap
  cases hc : st.cache b with
  | some p =>
    rw [hc] at hrun
    cases hrun
    exact Or.inl ⟨rfl, rfl⟩
  | none =>
    rw [hc] at hrun
    obtain ⟨r, st₁, halloc, hrun⟩ := run_bind_eq_ok.mp hrun
    obtain ⟨_, _, hget, hrun⟩ := run_bind_eq_ok.mp hrun
    cases hget
    obtain ⟨_, st₂, hstore, hrun⟩ := run_bind_eq_ok.mp hrun
    cases hrun
    obtain ⟨mem', rfl⟩ := storeBlock_ok hstore
    obtain ⟨mem, ⟨-, rfl⟩ | ⟨-, rfl⟩⟩ := syscallMemAlloc_ok halloc
    · exact Or.inr ⟨rfl, mem', setPage_setPage (st.withMem mem') b (some ⟨zeroBlock, false⟩) _⟩
    · exact Or.inr ⟨rfl, mem', rfl⟩

/-- `read_block` returns for a block in use only. -/
theorem readBlock_ok (h : Ready st) {isnew : Bool} (hrun : readBlock b st = .ok (isnew, st')) :
    b < st.nblocks ∧ ¬ st.isFree b ∧
      (((st.cache b).isSome ∧ st' = st) ∨
        (st.cache b = none ∧ ∃ mem, st' = (st.withMem mem).setPage b (some ⟨st.disk b, true⟩))) := by
  have hrun' := hrun
  unfold readBlock at hrun'
  obtain ⟨_, st₁, hexists, hrun'⟩ := run_bind_eq_ok.mp hrun'
  obtain ⟨rfl, hlt⟩ := checkExists_ok (fun _ => h.superPage) hexists
  obtain ⟨_, st₂, hused, -⟩ := run_bind_eq_ok.mp hrun'
  have husedrun := hused
  unfold checkUsed at hused
  rw [run_get, if_pos h.bitmap, run_bind (h.blockIsFree b)] at hused
  obtain ⟨hfree, rfl⟩ := userPanicIf_ok hused
  exact ⟨hlt h.super, of_decide_eq_false hfree, readBlock_fetch hexists husedrun hrun⟩

theorem mapBlock_ok {r : Int} (h : mapBlock b st = .ok (r, st')) :
    ((st.cache b).isSome ∧ r = 0 ∧ st' = st) ∨
      (st.cache b = none ∧ ∃ mem,
        (r = 0 ∧ st' = (st.withMem mem).setPage b (some ⟨zeroBlock, false⟩)) ∨
          (r = -E_NO_MEM ∧ st' = st.withMem mem)) := by
  unfold mapBlock at h
  obtain ⟨m, st₁, hmap, h⟩ := run_bind_eq_ok.mp h
  cases hmap
  cases hc : st.cache b with
  | some p =>
    rw [hc] at h
    cases h
    exact Or.inl ⟨rfl, rfl, rfl⟩
  | none =>
    rw [hc] at h
    exact Or.inr ⟨rfl, syscallMemAlloc_ok h⟩

theorem Ready.freeBlock (h : Ready st) (b : Nat) :
    freeBlock b st = .ok ((), if b ≠ 0 ∧ b < st.nblocks then st.setFree b else st) := by
  unfold Fs.freeBlock
  by_cases h0 : b = 0
  · rw [if_pos h0, if_neg (by omega)]
    rfl
  rw [if_neg h0, run_bind h.sNblocks]
  by_cases hb : st.nblocks ≤ b
  · rw [if_pos (show (st.words 1 1).toNat ≤ b from hb), if_neg (by omega)]
    rfl
  · have hlt : b < st.nblocks := Nat.not_le.mp hb
    rw [if_neg (show ¬ (st.words 1 1).toNat ≤ b from hb), run_bind (h.bitmapLoad hlt),
      h.bitmapStore hlt, if_pos ⟨h0, hlt⟩]
    rfl

theorem writeBlock_mapped (h : (st.cache b).isSome) :
    writeBlock b st = .ok ((), st.setDisk b (st.words b)) := by
  obtain ⟨p, hp⟩ := Option.isSome_iff_exists.mp h
  unfold writeBlock
  rw [run_get, hp, st.words_of_cache hp]
  rfl

theorem writeBlock_ok (h : writeBlock b st = .ok ((), st')) :
    (st.cache b).isSome ∧ st' = st.setDisk b (st.words b) := by
  have hb : (st.cache b).isSome := by
    unfold writeBlock at h
    rw [run_get] at h
    cases hc : st.cache b with
    | some p => rfl
    | none =>
      rw [hc] at h
      cases h
  rw [writeBlock_mapped hb] at h
  cases h
  exact ⟨hb, rfl⟩

theorem dirtyBlock_ok {r : Int} (h : dirtyBlock b st = .ok (r, st')) :
    st' = st ∨ ∃ p, st.cache b = some p ∧ st' = st.setPage b (some { p with dirty := true }) := by
  unfold dirtyBlock at h
  rw [run_get] at h
  cases hc : st.cache b with
  | none =>
    rw [hc] at h
    cases h
    exact Or.inl rfl
  | some p =>
    rw [hc] at h
    simp only at h
    split_ifs at h with hd
    · cases h
      exact Or.inl rfl
    · cases h
      exact Or.inr ⟨p, rfl, rfl⟩

/-- `dirty_block` changes a dirty bit. -/
theorem dirtyBlock_same {r : Int} (h : dirtyBlock b st = .ok (r, st')) :
    st'.words = st.words ∧ ∀ c, (st'.cache c).isSome = (st.cache c).isSome := by
  rcases dirtyBlock_ok h with rfl | ⟨p, hp, rfl⟩
  · exact ⟨rfl, fun _ => rfl⟩
  · refine ⟨?_, fun c => ?_⟩
    · funext c
      rw [FsState.setPage_words]
      split_ifs with hc
      · rw [hc, st.words_of_cache hp]
      · rfl
    · by_cases hc : c = b
      · rw [hc, FsState.setPage_self, hp]
        rfl
      · rw [FsState.setPage_of_ne st hc]

theorem blockIsDirty_eq (b : Nat) (st : FsState) : blockIsDirty b st = .ok (st.isDirty b, st) := rfl

theorem isDirty_isSome (h : st.isDirty b = true) : (st.cache b).isSome := by
  unfold FsState.isDirty at h
  cases hc : st.cache b with
  | some p => rfl
  | none =>
    rw [hc] at h
    cases h

/-- The page goes back to the disk when the block is in use and dirty. -/
theorem Ready.writeBack (h : Ready st) (b : Nat) :
    writeBack b st =
      .ok ((), if ¬ st.isFree b ∧ st.isDirty b = true then st.setDisk b (st.words b) else st) := by
  unfold Fs.writeBack
  rw [run_bind (h.blockIsFree b)]
  by_cases hf : st.isFree b
  · rw [decide_eq_true hf, if_neg (show ¬ (¬ st.isFree b ∧ st.isDirty b = true) from fun hc => hc.1 hf)]
    rfl
  · rw [decide_eq_false hf]
    show ((blockIsDirty b : FsM Bool) >>= _) st = _
    rw [run_bind (blockIsDirty_eq b st)]
    by_cases hd : st.isDirty b = true
    · rw [if_pos hd, if_pos (show ¬ st.isFree b ∧ st.isDirty b = true from ⟨hf, hd⟩)]
      exact writeBlock_mapped (isDirty_isSome hd)
    · rw [if_neg hd, if_neg (show ¬ (¬ st.isFree b ∧ st.isDirty b = true) from fun hc => hd hc.2)]
      rfl

theorem unmapBlock_ok (h : Ready st) (hrun : unmapBlock b st = .ok ((), st')) :
    (st.cache b).isSome ∧
      st' = (if ¬ st.isFree b ∧ st.isDirty b = true then st.setDisk b (st.words b) else st).setPage b
        none := by
  unfold unmapBlock at hrun
  obtain ⟨m, st₁, hmap, hrun⟩ := run_bind_eq_ok.mp hrun
  cases hmap
  obtain ⟨_, st₂, hassert, hrun⟩ := run_bind_eq_ok.mp hrun
  obtain ⟨hsome, rfl⟩ := userAssert_ok hassert
  rw [run_bind (h.writeBack b)] at hrun
  cases hrun
  exact ⟨hsome, rfl⟩

-- ---------------------------------------------------------------------------
-- Allocation
-- ---------------------------------------------------------------------------

/-- The bit of block `c` is cleared, and the bitmap block written. -/
def FsState.taken (st : FsState) (c : Nat) : FsState :=
  (st.setUsed c).setDisk (c / BIT2BLK + 2) ((st.setUsed c).words (c / BIT2BLK + 2))

theorem setUsed_nblocks (st : FsState) (c : Nat) : (st.setUsed c).nblocks = st.nblocks :=
  nblocks_storeWord ..

@[simp] theorem taken_cache (st : FsState) (c : Nat) : (st.taken c).cache = (st.setUsed c).cache := rfl

theorem taken_isFree (st : FsState) (c d : Nat) : (st.taken c).isFree d ↔ st.isFree d ∧ d ≠ c :=
  setUsed_isFree st c d

theorem Ready.taken (h : Ready st) (hc : c < st.nblocks) : Ready (st.taken c) :=
  (h.setUsed hc).of_mapped rfl rfl (fun _ hd => hd) (Nat.le_refl _)

theorem taken_nblocks (st : FsState) (c : Nat) : (st.taken c).nblocks = st.nblocks :=
  setUsed_nblocks st c

/-- `alloc_block_num` takes a free block from 3 on, or finds none. -/
theorem Ready.allocScan (h : Ready st) (n b : Nat) (hn : b + n ≤ st.nblocks) :
    allocScan n b st = .ok (.error (-E_NO_DISK), st) ∨
      ∃ c, b ≤ c ∧ st.isFree c ∧ allocScan n b st = .ok (.ok c, st.taken c) := by
  induction n generalizing b with
  | zero => exact Or.inl rfl
  | succ n ih =>
    have hb : b < st.nblocks := by omega
    unfold Fs.allocScan
    rw [run_bind (h.bitmapLoad hb)]
    by_cases hf : st.bits (b >>> 5) &&& Bitmap.mask b ≠ 0#32
    · refine Or.inr ⟨b, Nat.le_refl b, ⟨hb, hf⟩, ?_⟩
      rw [if_pos hf, run_bind (h.bitmapStore hb _)]
      have hpage : ((st.setUsed b).cache (b / BIT2BLK + 2)).isSome :=
        (h.setUsed hb).bitmapPage b (by rw [setUsed_nblocks]; exact hb)
      show (writeBlock (b / BIT2BLK + 2) >>= _) (st.setUsed b) = _
      rw [run_bind (writeBlock_mapped hpage)]
      rfl
    · rw [if_neg hf]
      rcases ih (b + 1) (by omega) with hnone | ⟨c, hc, hfree, hrun⟩
      · exact Or.inl hnone
      · exact Or.inr ⟨c, by omega, hfree, hrun⟩

theorem Ready.allocBlockNum (h : Ready st) :
    allocBlockNum st = .ok (.error (-E_NO_DISK), st) ∨
      ∃ c, 3 ≤ c ∧ st.isFree c ∧ allocBlockNum st = .ok (.ok c, st.taken c) := by
  have hrun : Fs.allocBlockNum st = Fs.allocScan (st.nblocks - 3) 3 st := by
    unfold Fs.allocBlockNum
    rw [run_bind h.sNblocks]
    rfl
  rw [hrun]
  by_cases hn : 3 ≤ st.nblocks
  · exact h.allocScan _ 3 (by omega)
  · rw [show st.nblocks - 3 = 0 by omega]
    exact Or.inl rfl

/-- The outcomes of `alloc_block`: the disk is full; a free block is in use, with
the page that was cached or a fresh one; or there was no page for it, and it is
free again. -/
theorem allocBlock_ok (h : Ready st) {r : Except Int Nat} (hrun : allocBlock st = .ok (r, st')) :
    (r = .error (-E_NO_DISK) ∧ st' = st) ∨
      ∃ c mem, 3 ≤ c ∧ st.isFree c ∧
        ((r = .ok c ∧ ((st.taken c).cache c).isSome ∧ st' = st.taken c) ∨
          (r = .ok c ∧ (st.taken c).cache c = none ∧
            st' = ((st.taken c).withMem mem).setPage c (some ⟨zeroBlock, false⟩)) ∨
          (r = .error (-E_NO_MEM) ∧ (st.taken c).cache c = none ∧
            st' = ((st.taken c).withMem mem).setFree c)) := by
  unfold allocBlock at hrun
  rcases h.allocBlockNum with hnum | ⟨c, hc, hfree, hnum⟩
  · rw [run_bind hnum] at hrun
    cases hrun
    exact Or.inl ⟨rfl, rfl⟩
  · rw [run_bind hnum] at hrun
    obtain ⟨m, st₁, hmap, hrun⟩ := run_bind_eq_ok.mp hrun
    rcases mapBlock_ok hmap with ⟨hsome, rfl, rfl⟩ | ⟨hnone, mem, ⟨rfl, rfl⟩ | ⟨rfl, rfl⟩⟩
    · cases hrun
      exact Or.inr ⟨c, st.mem, hc, hfree, Or.inl ⟨rfl, hsome, rfl⟩⟩
    · cases hrun
      exact Or.inr ⟨c, mem, hc, hfree, Or.inr (Or.inl ⟨rfl, hnone, rfl⟩)⟩
    · have hready : Ready ((st.taken c).withMem mem) :=
        (h.taken hfree.1).of_mapped rfl rfl (fun _ hd => hd) (Nat.le_refl _)
      have hlt : c < ((st.taken c).withMem mem).nblocks := by
        show c < (st.taken c).nblocks
        rw [taken_nblocks]
        exact hfree.1
      rw [if_pos (by decide), run_bind (hready.freeBlock c), if_pos ⟨by omega, hlt⟩] at hrun
      cases hrun
      exact Or.inr ⟨c, mem, hc, hfree, Or.inr (Or.inr ⟨rfl, hnone, rfl⟩)⟩

end Mos.Fs
