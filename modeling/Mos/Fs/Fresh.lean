import Mos.Fs.CacheRun
import Mos.Fs.File

/-!
# MOS on RISC-V — fresh blocks

`alloc_block` maps a page for the block it takes from the bitmap, and keeps one
that is mapped already. `file_block_walk` and `dir_alloc_file` take it that the
page is zero. It is in the runs of the server in which no block becomes free while
its page is cached (`allocBlock_fresh`); `free_block` does not look at the cache,
and a block that is written, freed and allocated again shows what was in it
(`allocBlock_stale`).
-/

namespace Mos.Fs

open Mos.Lib Mos.Kern

variable {st st' : FsState} {b c : Nat}

/-- What the server and its clients do to the cache. -/
inductive ServOp where
  | alloc
  | free (b : Nat)
  | read (b : Nat)
  | store (b : Nat) (i : Fin 1024) (w : BitVec 32)     -- by the server
  | client (b : Nat) (i : Fin 1024) (w : BitVec 32)    -- by a client that maps the page
  | dirty (b : Nat)
  | write (b : Nat)
  | sync

/-- A client's store sets the dirty bit of the client's entry only. -/
def FsState.clientStore (st : FsState) (b : Nat) (i : Fin 1024) (w : BitVec 32) : FsState :=
  match st.cache b with
  | some p => st.setPage b (some { p with words := Function.update p.words i w })
  | none => st

def ServOp.run (st : FsState) : ServOp → Except Stop FsState
  | .alloc => do
    let (_, st) ← allocBlock st
    return st
  | .free b => do
    let (_, st) ← freeBlock b st
    return st
  | .read b => do
    let (_, st) ← readBlock b st
    return st
  | .store b i w =>
    if (st.cache b).isSome then do
      let (_, st) ← Fs.store b i w st
      return st
    else .ok st
  | .client b i w => .ok (st.clientStore b i w)
  | .dirty b => do
    let (_, st) ← dirtyBlock b st
    return st
  | .write b => do
    let (_, st) ← writeBlock b st
    return st
  | .sync => do
    let (_, st) ← fsSync st
    return st

/-- The states of the runs from `st₀` whose steps all meet `P`. -/
inductive ServReach (P : FsState → ServOp → Prop) (st₀ : FsState) : FsState → Prop where
  | refl : ServReach P st₀ st₀
  | step {st st' : FsState} {op : ServOp} : ServReach P st₀ st → P st op → op.run st = .ok st' →
      ServReach P st₀ st'

/-- A store of `w` marks no cached block free. -/
def FsState.KeepsUsed (st : FsState) (b : Nat) (i : Fin 1024) (w : BitVec 32) : Prop :=
  (st.storeWord b i w).nblocks ≤ st.nblocks ∧
    ∀ c, (st.cache c).isSome → ¬ (st.storeWord b i w).isFree c

/-- No block becomes free while it is cached. -/
def Tidy (st : FsState) : ServOp → Prop
  | .free b => b ≠ 0 → b < st.nblocks → st.cache b = none
  | .store b i w => st.KeepsUsed b i w
  | .client b i w => st.KeepsUsed b i w
  | _ => True

/-- No free block is cached. -/
structure FreshInv (st : FsState) : Prop where
  ready : Ready st
  used : ∀ c, (st.cache c).isSome → ¬ st.isFree c

/-- A page is mapped that is none of the bitmap. -/
theorem isFree_setPage (h : Ready st) (hb : st.cache b = none) (p : CachePage) (c : Nat) :
    (st.setPage b (some p)).isFree c ↔ st.isFree c := by
  unfold FsState.isFree
  rw [nblocks_setPage h hb]
  refine and_congr_right fun hc => ?_
  have hne : bitmapBlock (c >>> 5) ≠ b := by
    rintro rfl
    have := h.page hc
    rw [hb] at this
    cases this
  unfold Bitmap.isSet FsState.bits
  rw [FsState.setPage_words, if_neg hne]

theorem isFree_congr (hwords : st'.words = st.words) (c : Nat) : st'.isFree c ↔ st.isFree c := by
  unfold FsState.isFree FsState.nblocks FsState.bits
  rw [hwords]

theorem clientStore_page (hb : (st.cache b).isSome) (i : Fin 1024) (w : BitVec 32) :
    ∃ q : CachePage, q.words = Function.update (st.words b) i w ∧
      st.clientStore b i w = st.setPage b (some q) := by
  obtain ⟨p, hp⟩ := Option.isSome_iff_exists.mp hb
  refine ⟨{ p with words := Function.update p.words i w }, by rw [st.words_of_cache hp], ?_⟩
  unfold FsState.clientStore
  rw [hp]

/-- A store of a client is one of the server, but for the dirty bit. -/
theorem clientStore_same (hb : (st.cache b).isSome) (i : Fin 1024) (w : BitVec 32) :
    (st.clientStore b i w).words = (st.storeWord b i w).words ∧
      ∀ c, ((st.clientStore b i w).cache c).isSome = ((st.storeWord b i w).cache c).isSome := by
  obtain ⟨q, hq, hstore⟩ := clientStore_page hb i w
  rw [hstore]
  unfold FsState.storeWord
  refine ⟨?_, fun c => ?_⟩
  · funext c
    rw [FsState.setPage_words, FsState.setPage_words, hq]
  · by_cases hc : c = b
    · rw [hc, FsState.setPage_self, FsState.setPage_self]
      rfl
    · rw [FsState.setPage_of_ne st hc, FsState.setPage_of_ne st hc]

namespace FreshInv

theorem free (h : FreshInv st) (hc : st.isFree c) : st.cache c = none := by
  cases hcache : st.cache c with
  | none => rfl
  | some p => exact absurd hc (h.used c (by rw [hcache]; rfl))

/-- The pages that are mapped hold what they held. -/
theorem same (h : FreshInv st) (hready : Ready st') (hwords : st'.words = st.words)
    (hcache : ∀ c, (st'.cache c).isSome → (st.cache c).isSome) : FreshInv st' :=
  ⟨hready, fun c hc hfree => h.used c (hcache c hc) ((isFree_congr hwords c).mp hfree)⟩

theorem storeWord (h : FreshInv st) (hb : (st.cache b).isSome) {i : Fin 1024} {w : BitVec 32}
    (hw : st.KeepsUsed b i w) : FreshInv (st.storeWord b i w) := by
  refine ⟨h.ready.storeWord hb i w hw.1, fun c hc => ?_⟩
  rw [st.storeWord_isSome hb] at hc
  exact hw.2 c hc

theorem setUsed (h : FreshInv st) (hc : c < st.nblocks) : FreshInv (st.setUsed c) := by
  refine ⟨h.ready.setUsed hc, fun d hd hfree => ?_⟩
  unfold FsState.setUsed at hd
  rw [st.storeWord_isSome (h.ready.page hc)] at hd
  exact h.used d hd ((setUsed_isFree st c d).mp hfree).1

theorem setFree (h : FreshInv st) (hc : c < st.nblocks) (hnone : st.cache c = none) :
    FreshInv (st.setFree c) := by
  refine ⟨h.ready.setFree hc, fun d hd hfree => ?_⟩
  unfold FsState.setFree at hd
  rw [st.storeWord_isSome (h.ready.page hc)] at hd
  rcases (setFree_isFree st hc d).mp hfree with hfree | rfl
  · exact h.used d hd hfree
  · rw [hnone] at hd
    cases hd

/-- A page is mapped for a block in use. -/
theorem setPage (h : FreshInv st) (hnone : st.cache b = none) (hb : ¬ st.isFree b) (p : CachePage) :
    FreshInv (st.setPage b (some p)) := by
  refine ⟨h.ready.of_mapped rfl rfl (setPage_isSome st b p)
    (Nat.le_of_eq (nblocks_setPage h.ready hnone p)), fun c hc hfree => ?_⟩
  rw [isFree_setPage h.ready hnone] at hfree
  by_cases hcb : c = b
  · exact hb (hcb ▸ hfree)
  · rw [FsState.setPage_of_ne st hcb] at hc
    exact h.used c hc hfree

theorem withMem (h : FreshInv st) (mem : Nat → Bool) : FreshInv (st.withMem mem) :=
  h.same (h.ready.of_mapped rfl rfl (fun _ hc => hc) (Nat.le_refl _)) rfl fun _ hc => hc

theorem setDisk (h : FreshInv st) (b : Nat) (ws : Block) : FreshInv (st.setDisk b ws) :=
  h.same (h.ready.of_mapped rfl rfl (fun _ hc => hc) (Nat.le_refl _)) rfl fun _ hc => hc

/-- `alloc_block` from a state in which no free block is cached: the new block is
cached for the first time, and the other pages stay, but for the bitmap. -/
theorem allocBlock (h : FreshInv st) {r : Except Int Nat} (hrun : allocBlock st = .ok (r, st')) :
    FreshInv st' ∧ ∀ c, r = .ok c → st.isFree c ∧ ¬ st'.isFree c ∧
      st'.cache c = some ⟨zeroBlock, false⟩ := by
  rcases allocBlock_ok h.ready hrun with ⟨rfl, rfl⟩ | ⟨c, mem, -, hfree, hcases⟩
  · exact ⟨h, nofun⟩
  have htaken : FreshInv (st.taken c) := (h.setUsed hfree.1).setDisk _ _
  have hused : ¬ (st.taken c).isFree c := fun hc => ((taken_isFree st c c).mp hc).2 rfl
  have hnone : (st.taken c).cache c = none := by
    cases hcache : (st.taken c).cache c with
    | none => rfl
    | some p =>
      have hsome : ((st.taken c).cache c).isSome := by rw [hcache]; rfl
      rw [taken_cache] at hsome
      unfold FsState.setUsed at hsome
      rw [st.storeWord_isSome (h.ready.page hfree.1), h.free hfree] at hsome
      cases hsome
  rcases hcases with ⟨rfl, hsome, rfl⟩ | ⟨rfl, -, rfl⟩ | ⟨rfl, -, rfl⟩
  · rw [hnone] at hsome
    cases hsome
  · refine ⟨(htaken.withMem mem).setPage hnone hused _, ?_⟩
    intro d hd
    cases hd
    refine ⟨hfree, ?_, FsState.setPage_self ..⟩
    rw [isFree_setPage (htaken.withMem mem).ready hnone]
    exact hused
  · refine ⟨(htaken.withMem mem).setFree ?_ hnone, nofun⟩
    show c < (st.taken c).nblocks
    rw [taken_nblocks]
    exact hfree.1

theorem readBlock (h : FreshInv st) {isnew : Bool} (hrun : readBlock b st = .ok (isnew, st')) :
    FreshInv st' := by
  obtain ⟨-, hused, ⟨-, rfl⟩ | ⟨hnone, mem, rfl⟩⟩ := readBlock_ok h.ready hrun
  · exact h
  · exact (h.withMem mem).setPage hnone hused _

theorem client (h : FreshInv st) {i : Fin 1024} {w : BitVec 32} (hw : st.KeepsUsed b i w) :
    FreshInv (st.clientStore b i w) := by
  cases hb : st.cache b with
  | none =>
    unfold FsState.clientStore
    rw [hb]
    exact h
  | some p =>
    have hsome : (st.cache b).isSome := by rw [hb]; rfl
    obtain ⟨hwords, hcache⟩ := clientStore_same hsome i w
    obtain ⟨q, -, hpage⟩ := clientStore_page hsome i w
    have hstore := h.storeWord hsome hw
    rw [hpage] at hwords hcache ⊢
    refine hstore.same (hstore.ready.of_mapped rfl rfl (fun c hc => by rw [hcache]; exact hc) ?_)
      hwords fun c hc => by rw [← hcache]; exact hc
    unfold FsState.nblocks
    rw [hwords]

/-- One step of the server or of a client. -/
theorem step (h : FreshInv st) {op : ServOp} (htidy : Tidy st op) (hrun : op.run st = .ok st') :
    FreshInv st' := by
  cases op with
  | alloc =>
    obtain ⟨⟨r, st₁⟩, halloc, hrun⟩ := bind_eq_ok.mp hrun
    cases hrun
    exact (h.allocBlock halloc).1
  | free b =>
    obtain ⟨⟨_, st₁⟩, hfree, hrun⟩ := bind_eq_ok.mp hrun
    cases hrun
    rw [h.ready.freeBlock] at hfree
    cases hfree
    split_ifs with hb
    · exact h.setFree hb.2 (htidy hb.1 hb.2)
    · exact h
  | read b =>
    obtain ⟨⟨isnew, st₁⟩, hread, hrun⟩ := bind_eq_ok.mp hrun
    cases hrun
    exact h.readBlock hread
  | store b i w =>
    simp only [ServOp.run] at hrun
    split_ifs at hrun with hb
    · rw [store_mapped hb] at hrun
      cases hrun
      exact h.storeWord hb htidy
    · cases hrun
      exact h
  | client b i w =>
    cases hrun
    exact h.client htidy
  | dirty b =>
    obtain ⟨⟨r, st₁⟩, hdirty, hrun⟩ := bind_eq_ok.mp hrun
    cases hrun
    obtain ⟨hwords, hcache⟩ := dirtyBlock_same hdirty
    exact h.same (dirtyBlock_contents h.ready hdirty).1 hwords fun c hc => by rw [← hcache]; exact hc
  | write b =>
    obtain ⟨⟨_, st₁⟩, hwrite, hrun⟩ := bind_eq_ok.mp hrun
    cases hrun
    obtain ⟨-, rfl⟩ := writeBlock_ok hwrite
    exact h.setDisk _ _
  | sync =>
    obtain ⟨⟨_, st₁⟩, hsync, hrun⟩ := bind_eq_ok.mp hrun
    cases hrun
    obtain ⟨hcache, -⟩ := fsSync_ok h.ready hsync
    refine h.same (fsSync_contents h.ready hsync).1 ?_ fun c hc => by rw [← hcache]; exact hc
    unfold FsState.words
    rw [hcache]

end FreshInv

theorem ServReach.inv {st₀ : FsState} (h₀ : FreshInv st₀) (h : ServReach Tidy st₀ st) : FreshInv st := by
  induction h with
  | refl => exact h₀
  | step _ htidy hrun ih => exact ih.step htidy hrun

-- ---------------------------------------------------------------------------
-- Blocks that are attached to a file
-- ---------------------------------------------------------------------------

/-- A word of a cached block that is neither `s_nblocks` nor of the bitmap. -/
structure Plain (st : FsState) (b : Nat) (i : Fin 1024) : Prop where
  cached : (st.cache b).isSome
  super : b = 1 → i ≠ 1
  bitmap : ∀ c < st.nblocks, b ≠ c / BIT2BLK + 2

/-- The slot at `va` is such a word. -/
def PlainAt (st : FsState) (va : Nat) : Prop :=
  ∃ b i, locate va = .ok (b, i) ∧ Plain st b i

theorem loadAt_located {va : Nat} {i : Fin 1024} (hva : locate va = .ok (b, i))
    (hb : (st.cache b).isSome) : loadAt va st = .ok (st.words b i, st) := by
  unfold loadAt
  rw [hva]
  exact load_mapped hb i

theorem storeAt_located {va : Nat} {i : Fin 1024} (hva : locate va = .ok (b, i))
    (hb : (st.cache b).isSome) (w : BitVec 32) : storeAt va w st = .ok ((), st.storeWord b i w) := by
  unfold storeAt
  rw [hva]
  exact store_mapped hb i w

namespace Plain

variable {i : Fin 1024}

theorem nblocks (h : Plain st b i) (w : BitVec 32) : (st.storeWord b i w).nblocks = st.nblocks := by
  unfold FsState.nblocks
  rw [FsState.storeWord_words]
  split_ifs with hb
  · rw [Function.update_of_ne (h.super hb.symm).symm, hb]
  · rfl

theorem isFree (h : Plain st b i) (w : BitVec 32) (c : Nat) :
    (st.storeWord b i w).isFree c ↔ st.isFree c := by
  unfold FsState.isFree
  rw [h.nblocks]
  refine and_congr_right fun hc => ?_
  unfold Bitmap.isSet FsState.bits
  rw [FsState.storeWord_words, if_neg]
  rw [bitmapBlock_shift]
  exact (h.bitmap c hc).symm

theorem storeWord (h : Plain st b i) (hinv : FreshInv st) (w : BitVec 32) :
    FreshInv (st.storeWord b i w) :=
  hinv.storeWord h.cached
    ⟨Nat.le_of_eq (h.nblocks w), fun c hc hfree => hinv.used c hc ((h.isFree w c).mp hfree)⟩

/-- More pages may be mapped. -/
theorem mono (h : Plain st b i) (hcache : (st.cache b).isSome → (st'.cache b).isSome)
    (hn : st'.nblocks = st.nblocks) : Plain st' b i :=
  ⟨hcache h.cached, h.super, by rw [hn]; exact h.bitmap⟩

end Plain

/-- `alloc_block` unmaps nothing. -/
theorem allocBlock_mapped (h : Ready st) {r : Except Int Nat} (hrun : allocBlock st = .ok (r, st')) :
    st'.nblocks = st.nblocks ∧ ∀ d, (st.cache d).isSome → (st'.cache d).isSome := by
  rcases allocBlock_ok h hrun with ⟨rfl, rfl⟩ | ⟨c, mem, -, hfree, hcases⟩
  · exact ⟨rfl, fun _ hd => hd⟩
  have htaken : ∀ d, (st.cache d).isSome → ((st.taken c).cache d).isSome := by
    intro d hd
    rw [taken_cache]
    unfold FsState.setUsed
    rw [st.storeWord_isSome (h.page hfree.1)]
    exact hd
  have hready := h.taken hfree.1
  rcases hcases with ⟨-, -, rfl⟩ | ⟨-, hnone, rfl⟩ | ⟨-, -, rfl⟩
  · exact ⟨taken_nblocks st c, htaken⟩
  · exact ⟨(nblocks_setPage hready hnone _).trans (taken_nblocks st c),
      fun d hd => setPage_isSome ((st.taken c).withMem mem) c _ d (htaken d hd)⟩
  · refine ⟨(nblocks_storeWord ((st.taken c).withMem mem) _ _ _).trans (taken_nblocks st c), ?_⟩
    intro d hd
    unfold FsState.setFree
    rw [FsState.storeWord_isSome _ (show (((st.taken c).withMem mem).cache _).isSome from
      hready.page (by rw [taken_nblocks]; exact hfree.1))]
    exact htaken d hd

/-- A block that is attached to an empty slot is fresh. -/
theorem needBlock_fresh (h : FreshInv st) {va : Nat} {i : Fin 1024} (hva : locate va = .ok (b, i))
    (hplain : Plain st b i) {r : Int} (hr : ¬ r < 0) (hrun : needBlock va true st = .ok (r, st')) :
    FreshInv st' ∧ (st'.cache b).isSome ∧ (st.words b i = 0 →
      st'.cache (st'.words b i).toNat = some ⟨zeroBlock, false⟩) := by
  unfold needBlock at hrun
  rw [run_bind (loadAt_located hva hplain.cached)] at hrun
  by_cases hzero : st.words b i = 0
  · rw [if_pos hzero, if_pos rfl] at hrun
    obtain ⟨a, st₁, halloc, hrun⟩ := run_bind_eq_ok.mp hrun
    cases a with
    | error e =>
      cases hrun
      rcases allocBlock_ok h.ready halloc with ⟨he, -⟩ | ⟨c, mem, -, -, hcases⟩
      · cases he
        exact absurd (by decide) hr
      · rcases hcases with ⟨he, -⟩ | ⟨he, -⟩ | ⟨he, -⟩
        · cases he
        · cases he
        · cases he
          exact absurd (by decide) hr
    | ok c =>
      obtain ⟨hn, hmapped⟩ := allocBlock_mapped h.ready halloc
      obtain ⟨h₁, hnew⟩ := h.allocBlock halloc
      obtain ⟨hfree, -, hpage⟩ := hnew c rfl
      have hplain₁ : Plain st₁ b i := hplain.mono (hmapped b) hn
      have hne : c ≠ b := by
        rintro rfl
        exact h.used c hplain.cached hfree
      have hstore := storeAt_located hva hplain₁.cached (BitVec.ofNat 32 c)
      simp only at hrun
      rw [run_bind hstore] at hrun
      cases hrun
      refine ⟨hplain₁.storeWord h₁ _, ?_, fun _ => ?_⟩
      · rw [st₁.storeWord_isSome hplain₁.cached]
        exact hplain₁.cached
      · have hslot : ((st₁.storeWord b i (BitVec.ofNat 32 c)).words b i).toNat = c := by
          rw [FsState.storeWord_words, if_pos rfl, Function.update_self, BitVec.toNat_ofNat]
          exact Nat.mod_eq_of_lt (Nat.lt_trans hfree.1 (st.words 1 1).isLt)
        rw [hslot]
        unfold FsState.storeWord
        rw [FsState.setPage_of_ne st₁ hne]
        exact hpage
  · rw [if_neg hzero] at hrun
    cases hrun
    exact ⟨h, hplain.cached, fun hc => absurd hc hzero⟩

/-- The page of a cached block stays through `read_block`. -/
theorem readBlock_cached (h : Ready st) {isnew : Bool} {p : CachePage} (hp : st.cache b = some p)
    (hrun : readBlock b st = .ok (isnew, st')) : st' = st := by
  obtain ⟨-, -, ⟨-, rfl⟩ | ⟨hnone, -⟩⟩ := readBlock_ok h hrun
  · rfl
  · rw [hp] at hnone
    cases hnone

/-- `file_block_walk`; a fresh indirect block is zero. -/
theorem fileBlockWalk_fresh (h : FreshInv st) {f filebno ptr : Nat}
    (hplain : NDIRECT ≤ filebno → PlainAt st (f + F_INDIRECT))
    (hrun : fileBlockWalk f filebno true st = .ok (.ok ptr, st')) :
    FreshInv st' ∧ (NDIRECT ≤ filebno → loadAt (f + F_INDIRECT) st = .ok (0, st) →
      ∃ ind, ptr = diskaddr ind + 4 * filebno ∧ st'.cache ind = some ⟨zeroBlock, false⟩) := by
  unfold fileBlockWalk at hrun
  by_cases hdirect : filebno < NDIRECT
  · rw [if_pos hdirect] at hrun
    cases hrun
    exact ⟨h, fun hc => absurd hdirect (Nat.not_lt.mpr hc)⟩
  rw [if_neg hdirect] at hrun
  by_cases hind : filebno < NINDIRECT
  · rw [if_pos hind] at hrun
    obtain ⟨b, i, hva, hplain⟩ := hplain (Nat.not_lt.mp hdirect)
    obtain ⟨r, st₁, hneed, hrun⟩ := run_bind_eq_ok.mp hrun
    by_cases hr : r < 0
    · rw [if_pos hr] at hrun
      cases hrun
    obtain ⟨h₁, hb, hfresh⟩ := needBlock_fresh h hva hplain hr hneed
    rw [if_neg hr, run_bind (loadAt_located hva hb)] at hrun
    obtain ⟨isnew, st₂, hread, hrun⟩ := run_bind_eq_ok.mp hrun
    cases hrun
    refine ⟨h₁.readBlock hread, fun _ hload => ⟨_, rfl, ?_⟩⟩
    rw [loadAt_located hva hplain.cached] at hload
    have hzero : st.words b i = 0 := congrArg Prod.fst (Except.ok.inj hload)
    have hpage := hfresh hzero
    rw [readBlock_cached h₁.ready hpage hread]
    exact hpage
  · rw [if_neg hind] at hrun
    cases hrun

/-- `file_get_block`, when the slot names no block yet. -/
theorem fileGetBlock_fresh (h : FreshInv st) {f filebno ptr c : Nat} {st₁ : FsState}
    (hplain : NDIRECT ≤ filebno → PlainAt st (f + F_INDIRECT))
    (hwalk : fileBlockWalk f filebno true st = .ok (.ok ptr, st₁)) (hslot : PlainAt st₁ ptr)
    (hempty : loadAt ptr st₁ = .ok (0, st₁)) (hrun : fileGetBlock f filebno st = .ok (.ok c, st')) :
    st'.cache c = some ⟨zeroBlock, false⟩ := by
  obtain ⟨h₁, -⟩ := fileBlockWalk_fresh h hplain hwalk
  obtain ⟨b, i, hva, hslot⟩ := hslot
  rw [loadAt_located hva hslot.cached] at hempty
  have hzero : st₁.words b i = 0 := congrArg Prod.fst (Except.ok.inj hempty)
  unfold fileGetBlock fileMapBlock at hrun
  obtain ⟨a, st₂, hmap, hrun⟩ := run_bind_eq_ok.mp hrun
  rw [run_bind hwalk] at hmap
  obtain ⟨r, st₃, hneed, hmap⟩ := run_bind_eq_ok.mp hmap
  by_cases hr : r < 0
  · rw [if_pos hr] at hmap
    cases hmap
    cases hrun
  obtain ⟨h₃, hb, hfresh⟩ := needBlock_fresh h₁ hva hslot hr hneed
  rw [if_neg hr, run_bind (loadAt_located hva hb)] at hmap
  cases hmap
  obtain ⟨isnew, st₄, hread, hrun⟩ := run_bind_eq_ok.mp hrun
  cases hrun
  rw [readBlock_cached h₃.ready (hfresh hzero) hread]
  exact hfresh hzero

/-- **Fresh blocks are zero.** In every run in which no block becomes free while it
is cached, a block that `alloc_block` returns has a page of zeros; so have a new
indirect block, and a block that `file_get_block` attaches to an empty slot. -/
theorem allocBlock_fresh (disk : Nat → Block) (mem : Nat → Bool) {fs : FsState}
    (hinit : fsInit (emptyCache disk mem) = .ok ((), fs)) (hrun : ServReach Tidy fs st) :
    (∀ c st', allocBlock st = .ok (.ok c, st') → st'.cache c = some ⟨zeroBlock, false⟩) ∧
    (∀ f filebno ptr st', NDIRECT ≤ filebno → PlainAt st (f + F_INDIRECT) →
      loadAt (f + F_INDIRECT) st = .ok (0, st) → fileBlockWalk f filebno true st = .ok (.ok ptr, st') →
      ∃ ind, ptr = diskaddr ind + 4 * filebno ∧ st'.cache ind = some ⟨zeroBlock, false⟩) ∧
    (∀ f filebno ptr st₁ c st', (NDIRECT ≤ filebno → PlainAt st (f + F_INDIRECT)) →
      fileBlockWalk f filebno true st = .ok (.ok ptr, st₁) → PlainAt st₁ ptr →
      loadAt ptr st₁ = .ok (0, st₁) → fileGetBlock f filebno st = .ok (.ok c, st') →
      st'.cache c = some ⟨zeroBlock, false⟩) := by
  obtain ⟨hready, hused⟩ := fsInit_ready hinit
  have h : FreshInv st := hrun.inv ⟨hready, hused⟩
  refine ⟨?_, ?_, ?_⟩
  · intro c st' halloc
    exact ((h.allocBlock halloc).2 c rfl).2.2
  · intro f filebno ptr st' hle hplain hzero hwalk
    exact (fileBlockWalk_fresh h (fun _ => hplain) hwalk).2 hle hzero
  · intro f filebno ptr st₁ c st' hplain hwalk hslot hempty hget
    exact fileGetBlock_fresh h hplain hwalk hslot hempty hget

def FsState.runAll (st : FsState) : List ServOp → Except Stop FsState
  | [] => .ok st
  | op :: ops => do
    let st ← op.run st
    st.runAll ops

theorem ServReach.runAll {P : FsState → ServOp → Prop} {st₀ : FsState} {ops : List ServOp}
    (h : ServReach P st₀ st) (hP : ∀ op ∈ ops, ∀ st, P st op) (hrun : st.runAll ops = .ok st') :
    ServReach P st₀ st' := by
  induction ops generalizing st with
  | nil =>
    cases hrun
    exact h
  | cons op ops ih =>
    obtain ⟨st₁, hop, hrest⟩ := bind_eq_ok.mp hrun
    exact ih (h.step (hP op List.mem_cons_self st) hop)
      (fun op' h' => hP op' (List.mem_cons_of_mem op h')) hrest

/-- `fs_init` on the small disk, then steps of the server, then `alloc_block`. -/
def smallAlloc (ops : List ServOp) : Except Stop (Option (Nat × BitVec 32)) := do
  let (_, fs) ← fsInit (emptyCache smallDisk fun _ => true)
  let st ← fs.runAll ops
  let (r, st') ← allocBlock st
  match r with
  | .error _ => return none
  | .ok c => return some (c, st'.words c 0)

theorem smallAlloc_ok {ops : List ServOp} {P : FsState → ServOp → Prop} {w : BitVec 32}
    (hP : ∀ op ∈ ops, ∀ st, P st op) (h : smallAlloc ops = .ok (some (c, w))) :
    ∃ fs st st', fsInit (emptyCache smallDisk fun _ => true) = .ok ((), fs) ∧ ServReach P fs st ∧
      allocBlock st = .ok (.ok c, st') ∧ st'.words c 0 = w := by
  obtain ⟨⟨_, fs⟩, hinit, h⟩ := bind_eq_ok.mp h
  obtain ⟨st, hrun, h⟩ := bind_eq_ok.mp h
  obtain ⟨⟨r, st'⟩, halloc, h⟩ := bind_eq_ok.mp h
  cases r with
  | error e => cases h
  | ok d =>
    cases h
    exact ⟨fs, st, st', hinit, .runAll .refl hP hrun, halloc, rfl⟩

/-- A second block, after the first was read and written. -/
theorem allocBlock_fresh_second :
    ∃ fs st st', fsInit (emptyCache smallDisk fun _ => true) = .ok ((), fs) ∧ ServReach Tidy fs st ∧
      allocBlock st = .ok (.ok 4, st') ∧ st'.cache 4 = some ⟨zeroBlock, false⟩ := by
  have hrun : smallAlloc [.alloc, .read 3, .dirty 3, .write 3] = .ok (some (4, 0#32)) := rfl
  obtain ⟨fs, st, st', hinit, hreach, halloc, -⟩ := smallAlloc_ok (P := Tidy) (by simp [Tidy]) hrun
  exact ⟨fs, st, st', hinit, hreach, halloc,
    (allocBlock_fresh _ _ hinit hreach).1 4 st' halloc⟩

/-- A block is allocated, written by a client, freed and allocated again. -/
theorem allocBlock_stale :
    ∃ fs st st', fsInit (emptyCache smallDisk fun _ => true) = .ok ((), fs) ∧
      ServReach (fun _ _ => True) fs st ∧ allocBlock st = .ok (.ok 3, st') ∧ st'.words 3 0 = 9#32 := by
  have hrun : smallAlloc [.alloc, .client 3 0 9#32, .free 3] = .ok (some (3, 9#32)) := rfl
  exact smallAlloc_ok (fun _ _ _ => trivial) hrun

end Mos.Fs
