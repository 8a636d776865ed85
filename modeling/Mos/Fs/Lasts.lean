import Mos.Fs.LayoutPath
import Mos.Fs.InitRun

/-!
# MOS on RISC-V — what is left for the next server

`fs_sync` writes the dirty pages, so a page that is clean and differs from the disk is
lost when the server ends (`Stale`). The hardware sets the dirty bit with every store
of the server; what stays clean is the page of zeros that `alloc_block` maps, and a
page that a client stored to without `FSREQ_DIRTY`. `Lasts S` says of two states what a
new server on the same disk relies on: the super block is the same, the boot block is
not freed, and only a block of `S` has become stale. The functions that the handlers
call make nothing stale but a new block of data (`fileGetBlock_lasts`); the new table of
a file is stored to at once, unless there is no block for the data.
-/

namespace Mos.Fs

open Mos.Lib Mos.Kern

variable {st st₁ st' : FsState} {use use' : Uses} {u : Use} {b c d i j n : Nat} {S : Nat → Prop}

/-- The page of the block is clean, and the disk has something else. -/
def FsState.Stale (st : FsState) (d : Nat) : Prop := ∃ p, st.cache d = some p ∧ p.dirty = false ∧ p.words ≠ st.disk d

structure Lasts (S : Nat → Prop) (st st' : FsState) : Prop where
  magic : st'.word 1 0 = st.word 1 0
  size : st'.nblocks = st.nblocks
  boot : st'.isFree 0 → st.isFree 0
  stale : ∀ d, st'.Stale d → st.Stale d ∨ S d
  dirty : ∀ d, st.isDirty d = true → st'.isDirty d = true

-- ---------------------------------------------------------------------------
-- Pages
-- ---------------------------------------------------------------------------

/-- A page that is dirty or as on the disk takes the place of another. -/
theorem Stale.of_setPage {p : CachePage} (h : (st.setPage b (some p)).Stale d)
    (hp : p.dirty = true ∨ p.words = st.disk b) : st.Stale d := by
  obtain ⟨q, hq, hclean, hne⟩ := h
  by_cases hd : d = b
  · subst hd
    rw [FsState.setPage_self] at hq
    cases hq
    rcases hp with hdirty | hsame
    · rw [hdirty] at hclean
      cases hclean
    · exact absurd hsame hne
  · rw [FsState.setPage_of_ne _ hd] at hq
    exact ⟨q, hq, hclean, hne⟩

/-- A page is written to the disk. -/
theorem Stale.of_setDisk (h : (st.setDisk b (st.words b)).Stale d) : st.Stale d := by
  obtain ⟨q, hq, hclean, hne⟩ := h
  by_cases hd : d = b
  · subst hd
    rw [FsState.setDisk_self] at hne
    exact absurd (st.words_of_cache hq).symm hne
  · rw [FsState.setDisk_of_ne _ hd] at hne
    exact ⟨q, hq, hclean, hne⟩

theorem Stale.cached (h : st.Stale d) : (st.cache d).isSome := by
  obtain ⟨p, hp, -⟩ := h
  rw [hp]
  rfl

/-- A page that is dirty takes the place of another. -/
theorem isDirty_setPage {p : CachePage} (hp : p.dirty = true) (hd : st.isDirty d = true) :
    (st.setPage b (some p)).isDirty d = true := by
  unfold FsState.isDirty at hd ⊢
  by_cases hdb : d = b
  · rw [hdb, FsState.setPage_self]
    exact hp
  · rw [FsState.setPage_of_ne _ hdb]
    exact hd

namespace Lasts

theorem refl (S : Nat → Prop) (st : FsState) : Lasts S st st := ⟨rfl, rfl, id, fun _ hd => Or.inl hd, fun _ hd => hd⟩

theorem trans (h : Lasts S st st₁) (h' : Lasts S st₁ st') : Lasts S st st' where
  magic := h'.magic.trans h.magic
  size := h'.size.trans h.size
  boot hf := h.boot (h'.boot hf)
  stale d hd := (h'.stale d hd).elim (h.stale d) Or.inr
  dirty d hd := h'.dirty d (h.dirty d hd)

theorem mono {T : Nat → Prop} (h : Lasts S st st') (hST : ∀ d, S d → T d) : Lasts T st st' :=
  ⟨h.magic, h.size, h.boot, fun d hd => (h.stale d hd).imp_right (hST d), h.dirty⟩

/-- The same contents, and nothing that has become stale. -/
theorem same (h : Ready st) (hready : Ready st') (hcontents : st'.contents = st.contents)
    (hstale : ∀ d, st'.Stale d → st.Stale d) (hdirty : ∀ d, st.isDirty d = true → st'.isDirty d = true) :
    Lasts S st st' := by
  have hwords : ∀ b, (st.cache b).isSome → (st'.cache b).isSome → st'.words b = st.words b := by
    intro b hb hb'
    rw [← contents_mapped hb, ← contents_mapped hb', hcontents]
  have hn : st'.nblocks = st.nblocks := by
    unfold FsState.nblocks
    rw [hwords 1 h.superPage hready.superPage]
  refine ⟨?_, hn, ?_, fun d hd => Or.inl (hstale d hd), hdirty⟩
  · unfold FsState.word
    rw [hcontents]
  · rintro ⟨hlt, hset⟩
    have hlt' : 0 < st.nblocks := by rw [← hn]; exact hlt
    refine ⟨hlt', ?_⟩
    unfold Bitmap.isSet FsState.bits at hset ⊢
    rw [hwords _ (h.page hlt') (hready.page hlt)] at hset
    exact hset

/-- A store to a word that is neither of the bitmap nor one of the first two of the super block. -/
theorem storeWord {i : Fin 1024} (h : Plain st b i) (hmagic : b = 1 → i ≠ 0) (w : BitVec 32) :
    Lasts S st (st.storeWord b i w) where
  magic := by
    unfold FsState.word
    rw [storeWord_contents h.cached]
    split_ifs with hb
    · rw [← hb]
      exact Function.update_of_ne (hmagic hb.symm).symm ..
    · rfl
  size := h.nblocks w
  boot := (h.isFree w 0).mp
  stale _ hd := Or.inl (Stale.of_setPage hd (Or.inl rfl))
  dirty _ hd := isDirty_setPage rfl hd

end Lasts

theorem readBlock_lasts (h : Ready st) {isnew : Bool} (hrun : readBlock b st = .ok (isnew, st')) : Lasts S st st' := by
  obtain ⟨hready, -, hcontents⟩ := readBlock_contents h hrun
  obtain ⟨-, -, ⟨-, rfl⟩ | ⟨-, mem, rfl⟩⟩ := readBlock_ok h hrun
  · exact .refl S st'
  · refine .same h hready hcontents (fun d hd => ?_) fun d hd => ?_
    · show (st.withMem mem).Stale d
      exact Stale.of_setPage hd (Or.inl rfl)
    · have hold : (st.withMem mem).isDirty d = true := hd
      exact isDirty_setPage rfl hold

theorem syncBlock_lasts (h : Ready st) (hrun : syncBlock b st = .ok ((), st')) : Lasts S st st' := by
  unfold syncBlock at hrun
  rw [run_bind (blockIsDirty_eq b st)] at hrun
  split_ifs at hrun
  · obtain ⟨hready, hcontents⟩ := writeBlock_contents h hrun
    obtain ⟨-, rfl⟩ := writeBlock_ok hrun
    exact .same h hready hcontents (fun d hd => Stale.of_setDisk hd) fun d hd => hd
  · cases hrun
    exact .refl S st

theorem dirtyBlock_lasts (h : Ready st) {r : Int} (hrun : dirtyBlock b st = .ok (r, st')) : Lasts S st st' := by
  obtain ⟨hready, hcontents⟩ := dirtyBlock_contents h hrun
  rcases dirtyBlock_ok hrun with rfl | ⟨p, -, rfl⟩
  · exact .refl S st'
  · exact .same h hready hcontents (fun d hd => Stale.of_setPage hd (Or.inl rfl)) fun d hd => isDirty_setPage rfl hd

/-- The bit of a block other than the boot block is set. -/
theorem setFree_lasts (h : Ready st) (hc : c < st.nblocks) (h0 : c ≠ 0) : Lasts S st (st.setFree c) where
  magic := setFree_word h hc (fun heq => bitmapBlock_ne_one (c >>> 5) ((bitmapBlock_shift c).trans heq.symm)) 0
  size := nblocks_storeWord ..
  boot hf := ((setFree_isFree st hc 0).mp hf).resolve_right fun heq => h0 heq.symm
  stale _ hd := Or.inl (Stale.of_setPage hd (Or.inl rfl))
  dirty _ hd := isDirty_setPage rfl hd

theorem taken_lasts (h : Ready st) (hc : c < st.nblocks) : Lasts S st (st.taken c) where
  magic := by
    unfold FsState.word
    rw [taken_contents h hc, if_neg (bitmapBlock_ne_one _).symm]
  size := taken_nblocks st c
  boot hf := ((taken_isFree st c 0).mp hf).1
  stale d hd := by
    have hused : (st.setUsed c).Stale d := Stale.of_setDisk hd
    exact Or.inl (Stale.of_setPage hused (Or.inl rfl))
  dirty d hd := by
    have hused : (st.setUsed c).isDirty d = true := isDirty_setPage rfl hd
    exact hused

/-- `alloc_block` makes nothing stale but the block it returns. -/
theorem allocBlock_lasts (h : Ready st) {r : Except Int Nat} (hrun : allocBlock st = .ok (r, st'))
    (hS : ∀ c, r = .ok c → S c) : Lasts S st st' := by
  rcases allocBlock_ok h hrun with ⟨-, rfl⟩ | ⟨c, mem, hc, hfree, hcases⟩
  · exact .refl S _
  have hready : Ready ((st.taken c).withMem mem) :=
    (h.taken hfree.1).of_mapped rfl rfl (fun _ hd => hd) (Nat.le_refl _)
  have ht : Lasts S st (st.taken c) := taken_lasts h hfree.1
  have htaken : Lasts S st ((st.taken c).withMem mem) := ⟨ht.magic, ht.size, ht.boot, ht.stale, ht.dirty⟩
  rcases hcases with ⟨-, -, rfl⟩ | ⟨rfl, hnone, rfl⟩ | ⟨-, -, rfl⟩
  · exact ht
  · have hne : 1 ≠ c := by omega
    refine ⟨?_, ?_, ?_, fun d hd => ?_, fun d hd => ?_⟩
    · unfold FsState.word
      rw [setPage_contents, if_neg hne]
      exact htaken.magic
    · rw [nblocks_setPage hready hnone]
      exact htaken.size
    · rw [isFree_setPage hready hnone]
      exact htaken.boot
    · by_cases hdc : d = c
      · exact Or.inr (hdc ▸ hS c rfl)
      · obtain ⟨q, hq, hclean, hwords⟩ := hd
        rw [FsState.setPage_of_ne _ hdc] at hq
        exact htaken.stale d ⟨q, hq, hclean, hwords⟩
    · have hold := htaken.dirty d hd
      have hdc : d ≠ c := by
        rintro rfl
        have hsome : ((st.taken d).cache d).isSome := isDirty_isSome hold
        rw [hnone] at hsome
        cases hsome
      unfold FsState.isDirty at hold ⊢
      rw [FsState.setPage_of_ne _ hdc]
      exact hold
  · have hlt : c < ((st.taken c).withMem mem).nblocks := by
      rw [htaken.size]
      exact hfree.1
    exact htaken.trans (setFree_lasts hready hlt (by omega))

/-- A store of a client. -/
theorem clientStore_lasts {i : Fin 1024} (hplain : Plain st b i) (hne : b ≠ 1) (hS : S b) (w : BitVec 32) :
    Lasts S st (st.clientStore b i w) := by
  have hstore : Lasts S st (st.storeWord b i w) := .storeWord hplain (fun heq => absurd heq hne) w
  obtain ⟨hwords, -⟩ := clientStore_same hplain.cached i w
  have hcontents := clientStore_contents hplain.cached i w
  have hn : (st.clientStore b i w).nblocks = (st.storeWord b i w).nblocks := by
    unfold FsState.nblocks
    rw [hwords]
  obtain ⟨q, -, hpage⟩ := clientStore_page hplain.cached i w
  refine ⟨?_, hn.trans hstore.size, fun hf => hstore.boot ?_, fun d hd => ?_, fun d hd => ?_⟩
  · rw [← hstore.magic]
    unfold FsState.word
    rw [hcontents]
  · unfold FsState.isFree FsState.bits at hf ⊢
    rw [hn, hwords] at hf
    exact hf
  · by_cases hdb : d = b
    · exact Or.inr (hdb ▸ hS)
    · rw [hpage] at hd
      obtain ⟨p, hp, hclean, hdiff⟩ := hd
      rw [FsState.setPage_of_ne _ hdb] at hp
      exact Or.inl ⟨p, hp, hclean, hdiff⟩
  · unfold FsState.clientStore
    cases hp : st.cache b with
    | none => exact hd
    | some p =>
      by_cases hdb : d = b
      · have hold : p.dirty = true := by
          unfold FsState.isDirty at hd
          rw [hdb, hp] at hd
          exact hd
        exact isDirty_setPage hold hd
      · unfold FsState.isDirty at hd ⊢
        rw [FsState.setPage_of_ne _ hdb]
        exact hd

-- ---------------------------------------------------------------------------
-- Words of files
-- ---------------------------------------------------------------------------

namespace Layout

variable (h : Layout st use)
include h

/-- A block number is no word that `Lasts` is about. -/
theorem ptrLow (hp : Ptr st use b j u) (hb : b = 1) : Fin.ofNat 1024 j ≠ 0 := by
  have hj : j ≠ 0 := by
    cases hp with
    | direct => simp only [W_DIRECT]; omega
    | table => simp only [W_INDIRECT]; omega
    | entry htable =>
      rw [hb, h.superUse] at htable
      cases htable
  exact fun heq => hj (ofNat_inj hp.lt (by decide) heq)

theorem storeField_lasts {k : Nat} (hf : FileAt st use b i) (hk : k < 64) (w : BitVec 32) :
    Lasts S st (st.storeWord b (Fin.ofNat 1024 (i + k)) w) := by
  have hlt := hf.slot.lt
  refine .storeWord (h.plainFile hf hk) (fun hb heq => ?_) w
  have hzero : i + k = 0 :=
    ofNat_inj (by omega) (by decide) (show Fin.ofNat 1024 (i + k) = Fin.ofNat 1024 0 from heq)
  cases hf.slot with
  | root => omega
  | entry hdir =>
    rw [hb, h.superUse] at hdir
    cases hdir

/-- The block that a slot names is freed, and the slot cleared. -/
theorem detach_lasts (hp : Ptr st use b j u) (hb : (st.cache b).isSome) (hne : st.word b j ≠ 0)
    (hrun : (do freeBlock (st.word b j).toNat; Fs.storeAt (addr b j) 0) st = .ok ((), st')) : Lasts S st st' := by
  obtain ⟨v, hv⟩ := h.ptrUse hp
  have hnamed := h.ptrNamed hp hne
  generalize hc : (st.word b j).toNat = c at hrun hnamed
  have hc0 : c ≠ 0 := by
    rintro rfl
    exact hne (BitVec.eq_of_toNat_eq hc)
  have hlt : c < st.nblocks := (h.inUse _ _ hnamed).1
  have hfree := h.ready.freeBlock c
  rw [if_pos ⟨hc0, hlt⟩] at hfree
  have hb' : ((st.setFree c).cache b).isSome := by
    unfold FsState.setFree
    rw [st.storeWord_isSome (h.ready.page hlt)]
    exact hb
  have hplain : Plain (st.setFree c) b (Fin.ofNat 1024 j) :=
    (h.plainPtr hp hb).mono (fun _ => hb') (nblocks_storeWord ..)
  rw [run_bind hfree, storeAt_located (locate_addr (h.lt hv) hp.lt) hb'] at hrun
  cases hrun
  exact (setFree_lasts h.ready hlt hc0).trans (.storeWord hplain (h.ptrLow hp) 0)

end Layout

-- ---------------------------------------------------------------------------
-- Finding blocks
-- ---------------------------------------------------------------------------

theorem needBlock_there {va : Nat} {w : BitVec 32} (hload : loadAt va st = .ok (w, st)) (hw : w ≠ 0) (alloc : Bool) :
    needBlock va alloc st = .ok (0, st) := by
  unfold needBlock
  rw [run_bind hload, if_neg hw]
  rfl

/-- `file_block_walk` that makes no table. -/
theorem fileBlockWalk_lasts (h : Layout st use) (hf : FileAt st use b i) {alloc : Bool}
    (hthere : alloc = true → NDIRECT ≤ n → n < NINDIRECT → st.word b (i + W_INDIRECT) ≠ 0) {r : Except Int Nat}
    (hrun : fileBlockWalk (addr b i) n alloc st = .ok (r, st')) : Lasts S st st' := by
  have hload := h.loadField hf (k := W_INDIRECT) (by decide)
  unfold fileBlockWalk at hrun
  split_ifs at hrun with hn hn'
  · cases hrun
    exact .refl S st
  · rw [addr_indirect] at hrun
    by_cases hzero : st.word b (i + W_INDIRECT) = 0
    · cases alloc with
      | true => exact absurd hzero (hthere rfl (Nat.not_lt.mp hn) hn')
      | false =>
        rw [run_bind (needBlock_eq hload), if_pos hzero, if_pos (by decide)] at hrun
        cases hrun
        exact .refl S st
    · rw [run_bind (needBlock_there hload hzero alloc), if_neg (by decide), run_bind hload] at hrun
      obtain ⟨_, st₁, hread, hend⟩ := run_bind_eq_ok.mp hrun
      cases hend
      exact readBlock_lasts h.ready hread
  · cases hrun
    exact .refl S st

/-- `file_map_block` without `alloc`. -/
theorem findBlock_lasts (h : Layout st use) (hf : FileAt st use b i) {r : Except Int Nat}
    (hrun : fileMapBlock (addr b i) n false st = .ok (r, st')) : Lasts S st st' := by
  unfold fileMapBlock at hrun
  obtain ⟨r₁, st₁, hwalk, hrest⟩ := run_bind_eq_ok.mp hrun
  have hlasts : Lasts S st st₁ := fileBlockWalk_lasts h hf (fun hc => absurd hc Bool.false_ne_true) hwalk
  obtain ⟨use₁, h₁, hm₁, hsame, -, hslot⟩ := (fileBlockWalk_reads h hf n).ok hwalk
  cases hs : st.slot b i n with
  | none =>
    rw [hs] at hslot
    obtain ⟨e, rfl⟩ := hslot
    cases hrest
    exact hlasts
  | some p =>
    obtain ⟨b', j⟩ := p
    rw [hs] at hslot
    obtain ⟨rfl, hb⟩ := hslot
    have hp := h.slot_ptr hf.slot hs
    obtain ⟨v, hv⟩ := h.ptrUse hp
    have hload := h₁.loadAt (hsame ▸ hv) hb hp.lt
    simp only at hrest
    rw [run_bind (needBlock_eq hload)] at hrest
    generalize (if st₁.word b' j = 0 then -E_NOT_FOUND else 0 : Int) = r₀ at hrest
    split_ifs at hrest
    · cases hrest
      exact hlasts
    · rw [run_bind hload] at hrest
      cases hrest
      exact hlasts

-- ---------------------------------------------------------------------------
-- Writing back
-- ---------------------------------------------------------------------------

theorem fileDirty_lasts (h : Layout st use) (hf : FileAt st use b i) {offset : Nat} {r : Int}
    (hrun : fileDirty (addr b i) offset st = .ok (r, st')) : Lasts S st st' := by
  unfold fileDirty at hrun
  obtain ⟨r₁, st₁, hmap, hrest⟩ := run_bind_eq_ok.mp hrun
  have hlasts : Lasts S st st₁ := findBlock_lasts h hf hmap
  obtain ⟨use₁, h₁, -⟩ := (fileMapBlock_reads h hf _).ok hmap
  cases r₁ with
  | error e =>
    cases hrest
    exact hlasts
  | ok d => exact hlasts.trans (dirtyBlock_lasts h₁.ready hrest)

theorem flushBlock_lasts (h : Layout st use) (hf : FileAt st use b i)
    (hrun : flushBlock (addr b i) n st = .ok ((), st')) : Lasts S st st' := by
  unfold flushBlock at hrun
  obtain ⟨r₁, st₁, hmap, hrest⟩ := run_bind_eq_ok.mp hrun
  have hlasts : Lasts S st st₁ := findBlock_lasts h hf hmap
  obtain ⟨use₁, h₁, -⟩ := (fileMapBlock_reads h hf _).ok hmap
  cases r₁ with
  | error e =>
    cases hrest
    exact hlasts
  | ok d => exact hlasts.trans (syncBlock_lasts h₁.ready hrest)

theorem fileFlush_lasts (h : Layout st use) (hf : FileAt st use b i)
    (hrun : fileFlush (addr b i) st = .ok ((), st')) : Lasts S st st' := by
  unfold fileFlush at hrun
  rw [addr_size, run_bind (h.loadField hf (by decide))] at hrun
  obtain ⟨-, -, -, hlasts⟩ := forM_range_inv
    (fun _ s => ∃ use', Layout s use' ∧ FileAt s use' b i ∧ Lasts S st s) _ ⟨use, h, hf, .refl S st⟩ (by
      rintro n - s s' ⟨use₁, h₁, hf₁, hlasts⟩ hbody
      obtain ⟨use₂, h₂, hm, -⟩ := (flushBlock_runs h₁ hf₁ n).ok hbody
      exact ⟨use₂, h₂, hf₁.moves hm, hlasts.trans (flushBlock_lasts h₁ hf₁ hbody)⟩) hrun
  exact hlasts

theorem flushDir_lasts (h : Layout st use) {f : Nat} (hf : Linked st use f)
    (hrun : flushDir f st = .ok ((), st')) : Lasts S st st' := by
  obtain ⟨b, i, rfl, hat, hlink⟩ := hf
  unfold flushDir at hrun
  rw [addr_dir, run_bind (h.loadField hat (by decide))] at hrun
  split_ifs at hrun with hne
  · rcases hlink with hzero | ⟨b', i', haddr, hat'⟩
    · exact absurd (BitVec.eq_of_toNat_eq hzero) hne
    · rw [haddr] at hrun
      exact fileFlush_lasts h hat' hrun
  · cases hrun
    exact .refl S st

theorem fileClose_lasts (h : Layout st use) {f : Nat} (hf : Linked st use f)
    (hrun : fileClose f st = .ok ((), st')) : Lasts S st st' := by
  obtain ⟨b, i, rfl, hat⟩ := hf.fileAt
  unfold fileClose at hrun
  obtain ⟨_, st₁, hflush, hrest⟩ := run_bind_eq_ok.mp hrun
  obtain ⟨use₁, h₁, hm₁, -⟩ := (fileFlush_runs h hat).ok hflush
  exact (fileFlush_lasts h hat hflush).trans (flushDir_lasts h₁ (hm₁.linked _ hf) hrest)

theorem fsSync_lasts (h : Layout st use) (hrun : fsSync st = .ok ((), st')) : Lasts S st st' := by
  unfold fsSync at hrun
  rw [run_bind h.ready.sNblocks] at hrun
  obtain ⟨-, -, hlasts⟩ := forM_range_inv (fun _ s => ∃ use', Layout s use' ∧ Lasts S st s) _ ⟨use, h, .refl S st⟩ (by
    rintro n - s s' ⟨use₁, h₁, hlasts⟩ hbody
    obtain ⟨use₂, h₂, -⟩ := (syncBlock_runs h₁ n).ok hbody
    exact ⟨use₂, h₂, hlasts.trans (syncBlock_lasts h₁.ready hbody)⟩) hrun
  exact hlasts

end Mos.Fs
