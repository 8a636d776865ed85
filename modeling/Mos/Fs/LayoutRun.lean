import Mos.Fs.Layout

/-!
# MOS on RISC-V — the functions of fs.c on a file system that is laid out

Each function of `fs.c` that works on files keeps `Layout`: it stops only when the
kernel has no page for it, and leaves the files in the cache where they are.

Main results:

* `fileGetBlock_runs` — the block it finds is cached, and of the use that it should have;
* `fileTruncate_runs` — `file_truncate`, if no block that it frees is cached;
* `fileSetSize_runs`, `fileClose_runs`, `fileDirty_runs`, `fsSync_runs`.
-/

namespace Mos.Fs

open Mos.Lib Mos.Kern

variable {st st' : FsState} {use use' : Uses} {u : Use} {b c i j k : Nat} {α : Type}

-- ---------------------------------------------------------------------------
-- Pages of the kernel
-- ---------------------------------------------------------------------------

/-- The kernel gives the next page. -/
def FsState.asked (st : FsState) : FsState := st.withMem fun n => st.mem (n + 1)

theorem syscallMemAlloc_run (b : Nat) (st : FsState) :
    syscallMemAlloc b st = if st.mem 0 = true then .ok (0, st.asked.setPage b (some ⟨zeroBlock, false⟩))
      else .ok (-E_NO_MEM, st.asked) := by
  unfold syscallMemAlloc
  have hask : pageAnswer st = .ok (st.mem 0, st.asked) := rfl
  rw [run_bind hask]
  split_ifs
  · rfl
  · rfl

theorem access_absent (hc : st.cache b = none) :
    access b st = if st.mem 0 = true then
        .ok (⟨zeroBlock, false⟩, st.asked.setPage b (some ⟨zeroBlock, false⟩))
      else .error .kernelPanic := by
  unfold access
  have hask : pageAnswer st = .ok (st.mem 0, st.asked) := rfl
  rw [run_get, hc]
  show (pageAnswer >>= _) st = _
  rw [run_bind hask]
  split_ifs
  · rfl
  · rfl

/-- A block is stored, unless the kernel has no page. -/
theorem storeBlock_run (b : Nat) (ws : Block) (st : FsState) :
    (∃ st', storeBlock b ws st = .ok ((), st') ∧ Asked st st') ∨
      (storeBlock b ws st = .error .kernelPanic ∧ st.mem 0 = false) := by
  unfold storeBlock
  cases hc : st.cache b with
  | some p =>
    obtain ⟨q, -, -, hacc⟩ := access_mapped (show (st.cache b).isSome by rw [hc]; rfl)
    rw [run_bind hacc]
    exact Or.inl ⟨_, rfl, .refl st⟩
  | none =>
    have hacc := access_absent hc
    cases hmem : st.mem 0 with
    | true =>
      rw [if_pos hmem] at hacc
      rw [run_bind hacc]
      exact Or.inl ⟨_, rfl, 1, fun _ => rfl⟩
    | false =>
      rw [hmem, if_neg Bool.false_ne_true] at hacc
      exact Or.inr ⟨run_bind_error hacc _, rfl⟩

/-- `read_block` of a block in use. -/
theorem readBlock_run (h : Ready st) (hlt : b < st.nblocks) (hused : ¬ st.isFree b) :
    (∃ isnew st', readBlock b st = .ok (isnew, st') ∧ Asked st st') ∨
      (readBlock b st = .error .kernelPanic ∧ ∃ n, st.mem n = false) := by
  have hexists : checkExists b st = .ok ((), st) := by
    unfold checkExists
    rw [run_get, if_pos h.super, run_bind h.sNblocks]
    have hp : decide (st.nblocks ≤ b) = false := decide_eq_false (Nat.not_le.mpr hlt)
    show userPanicIf (decide (st.nblocks ≤ b)) st = _
    rw [hp]
    rfl
  have hcheck : checkUsed b st = .ok ((), st) := by
    unfold checkUsed
    rw [run_get, if_pos h.bitmap, run_bind (h.blockIsFree b), decide_eq_false hused]
    rfl
  unfold readBlock
  rw [run_bind hexists, run_bind hcheck]
  have hmap : blockIsMapped b st = .ok ((st.cache b).isSome, st) := rfl
  rw [run_bind hmap]
  by_cases hsome : (st.cache b).isSome = true
  · rw [if_pos hsome]
    exact Or.inl ⟨_, _, rfl, .refl st⟩
  · rw [if_neg hsome]
    -- whatever `syscall_mem_alloc` answered
    obtain ⟨r, st₁, halloc, hasked⟩ : ∃ r st₁, syscallMemAlloc b st = .ok (r, st₁) ∧ Asked st st₁ := by
      rw [syscallMemAlloc_run]
      split_ifs
      · exact ⟨_, _, rfl, 1, fun _ => rfl⟩
      · exact ⟨_, _, rfl, 1, fun _ => rfl⟩
    rw [run_bind halloc, run_get]
    rcases storeBlock_run b (st₁.disk b) st₁ with ⟨st', hstore, hasked'⟩ | ⟨hstore, hmem⟩
    · rw [run_bind hstore]
      exact Or.inl ⟨_, _, rfl, hasked.trans hasked'⟩
    · exact Or.inr ⟨run_bind_error hstore _, hasked.back ⟨0, hmem⟩⟩

/-- `alloc_block` comes back. -/
theorem allocBlock_run (h : Ready st) : ∃ r st', allocBlock st = .ok (r, st') ∧ Asked st st' := by
  unfold allocBlock
  rcases h.allocBlockNum with hnum | ⟨c, -, hfree, hnum⟩
  · rw [run_bind hnum]
    exact ⟨_, _, rfl, .refl st⟩
  · rw [run_bind hnum]
    have hready := h.taken hfree.1
    obtain ⟨r, st₁, hmap, hasked, hready₁⟩ : ∃ r st₁, mapBlock c (st.taken c) = .ok (r, st₁) ∧
        Asked (st.taken c) st₁ ∧ (r < 0 → Ready st₁) := by
      have hmapped : blockIsMapped c (st.taken c) = .ok (((st.taken c).cache c).isSome, st.taken c) := rfl
      unfold mapBlock
      rw [run_bind hmapped]
      by_cases hsome : ((st.taken c).cache c).isSome = true
      · rw [if_pos hsome]
        exact ⟨_, _, rfl, .refl _, fun _ => hready⟩
      · rw [if_neg hsome, syscallMemAlloc_run]
        split_ifs
        · exact ⟨_, _, rfl, ⟨1, fun _ => rfl⟩, fun hr => absurd hr (by decide)⟩
        · exact ⟨_, _, rfl, ⟨1, fun _ => rfl⟩,
            fun _ => hready.of_mapped rfl rfl (fun _ hd => hd) (Nat.le_refl _)⟩
    simp only
    rw [run_bind hmap]
    by_cases hr : r < 0
    · rw [if_pos hr, run_bind ((hready₁ hr).freeBlock c)]
      refine ⟨_, _, rfl, hasked.trans ?_⟩
      split_ifs
      · exact ⟨0, fun _ => rfl⟩
      · exact .refl st₁
    · rw [if_neg hr]
      exact ⟨_, _, rfl, hasked⟩

-- ---------------------------------------------------------------------------
-- Words of a file
-- ---------------------------------------------------------------------------

theorem addr_size (b i : Nat) : addr b i + F_SIZE = addr b (i + W_SIZE) := addr_add b i W_SIZE

theorem addr_type (b i : Nat) : addr b i + F_TYPE = addr b (i + W_TYPE) := addr_add b i W_TYPE

theorem addr_direct (b i k : Nat) : addr b i + F_DIRECT + 4 * k = addr b (i + W_DIRECT + k) := by
  rw [show addr b i + F_DIRECT = addr b (i + W_DIRECT) from addr_add b i W_DIRECT, addr_add]

theorem addr_indirect (b i : Nat) : addr b i + F_INDIRECT = addr b (i + W_INDIRECT) :=
  addr_add b i W_INDIRECT

theorem addr_dir (b i : Nat) : addr b i + F_DIR = addr b (i + W_DIR) := addr_add b i W_DIR

theorem word_mapped (h : (st.cache b).isSome) (i : Nat) : st.word b i = st.words b (Fin.ofNat 1024 i) := by
  unfold FsState.word
  rw [contents_mapped h]

theorem Tracked.lt (h : Tracked use b j) : j < 1024 := by
  rcases h with ⟨i, hf, -, hhi⟩ | ⟨-, -, hlt⟩
  · have hlt := hf.lt
    simp only [W_INDIRECT] at hhi
    omega
  · exact hlt

/-- A word of a file that is none of those that `Tracked` is about. -/
theorem FileSlot.untracked (hsuper : use 1 = some .system) (h : FileSlot use b i) (hk : k < 64)
    (hfield : k < W_TYPE ∨ W_INDIRECT < k) : ¬ Tracked use b (i + k) := by
  simp only [W_TYPE, W_INDIRECT] at hfield
  rintro (⟨i', hf, hlo, hhi⟩ | ⟨d, htable, -⟩)
  · simp only [W_TYPE, W_INDIRECT] at hlo hhi
    obtain rfl : i' = i := hf.disjoint hsuper h (by omega) (by omega)
    omega
  · exact h.notTable hsuper d htable

/-- Two fields of files are the same word only if they are the same field. -/
theorem FileSlot.field_inj (hsuper : use 1 = some .system) (h : FileSlot use b i) (h' : FileSlot use b j)
    {k k' : Nat} (hk : k < 64) (hk' : k' < 64) (heq : i + k = j + k') : i = j ∧ k = k' := by
  obtain rfl : i = j := h.disjoint hsuper h' (by omega) (by omega)
  exact ⟨rfl, by omega⟩

theorem Plain.ready {i : Fin 1024} (h : Plain st b i) (hready : Ready st) (w : BitVec 32) :
    Ready (st.storeWord b i w) :=
  hready.storeWord h.cached i w (Nat.le_of_eq (h.nblocks w))

namespace Layout

theorem loadAt (h : Layout st use) (hu : use b = some u) (hb : (st.cache b).isSome) (hi : i < 1024) :
    loadAt (addr b i) st = .ok (st.word b i, st) := by
  rw [word_mapped hb]
  exact loadAt_located (locate_addr (h.lt hu) hi) hb

theorem storeAt (h : Layout st use) (hu : use b = some u) (hb : (st.cache b).isSome) (hi : i < 1024)
    (w : BitVec 32) : storeAt (addr b i) w st = .ok ((), st.storeWord b (Fin.ofNat 1024 i) w) :=
  storeAt_located (locate_addr (h.lt hu) hi) hb w

/-- A field of a file in the cache. -/
theorem loadField (h : Layout st use) (hf : FileAt st use b i) (hk : k < 64) :
    Fs.loadAt (addr b (i + k)) st = .ok (st.word b (i + k), st) := by
  obtain ⟨u, hu⟩ := h.slotUse hf.slot
  have hlt := hf.slot.lt
  exact h.loadAt hu hf.cached (by omega)

theorem storeField_run (h : Layout st use) (hf : FileAt st use b i) (hk : k < 64) (w : BitVec 32) :
    Fs.storeAt (addr b (i + k)) w st = .ok ((), st.storeWord b (Fin.ofNat 1024 (i + k)) w) := by
  obtain ⟨u, hu⟩ := h.slotUse hf.slot
  have hlt := hf.slot.lt
  exact h.storeAt hu hf.cached (by omega) w

/-- The same contents, with more of them cached. -/
theorem same (h : Layout st use) (hready : Ready st') (hcontents : st'.contents = st.contents) :
    Layout st' use := by
  have hwords : ∀ c, (st.cache c).isSome → (st'.cache c).isSome → st'.words c = st.words c := by
    intro c hc hc'
    rw [← contents_mapped hc, ← contents_mapped hc', hcontents]
  have hword : st'.word = st.word := by
    funext b j
    unfold FsState.word
    rw [hcontents]
  have hn : st'.nblocks = st.nblocks := by
    unfold FsState.nblocks
    rw [hwords 1 h.ready.superPage hready.superPage]
  refine h.congr hready hn ?_ (fun b j _ => by rw [hword]) (by rw [hword]; exact h.rootDir)
  rintro c ⟨hlt, hset⟩
  have hlt' : c < st.nblocks := by rw [← hn]; exact hlt
  refine ⟨hlt', ?_⟩
  unfold Bitmap.isSet FsState.bits at hset ⊢
  rw [hwords _ (h.ready.page hlt') (hready.page hlt)] at hset
  exact hset

/-- A store to a word that is neither tracked nor the `f_dir` of the root. -/
theorem storeUntracked (h : Layout st use) (hj : j < 1024) (hplain : Plain st b (Fin.ofNat 1024 j))
    (hnot : ¬ Tracked use b j) (hroot : ¬ (b = 1 ∧ j = 2 + W_DIR)) (w : BitVec 32) :
    Layout (st.storeWord b (Fin.ofNat 1024 j) w) use := by
  refine h.congr (hplain.ready h.ready w) (hplain.nblocks w) (fun c hc => (hplain.isFree w c).mp hc) ?_ ?_
  · intro c k htracked
    rw [word_storeWord hplain.cached hj htracked.lt, if_neg]
    rintro ⟨rfl, rfl⟩
    exact hnot htracked
  · rw [word_storeWord hplain.cached hj (by decide), if_neg]
    · exact h.rootDir
    · exact fun heq => hroot ⟨heq.1.symm, heq.2.symm⟩

/-- A store to a field of a file that is neither its type nor a slot of a block number. -/
theorem storeField (h : Layout st use) (hf : FileAt st use b i) (hk : k < 64)
    (hfield : k < W_TYPE ∨ W_INDIRECT < k) (hdir : k = W_DIR → use b = some .dir) (w : BitVec 32) :
    Layout (st.storeWord b (Fin.ofNat 1024 (i + k)) w) use := by
  have hlt := hf.slot.lt
  refine h.storeUntracked (by omega) (h.plainFile hf hk) (hf.slot.untracked h.superUse hk hfield) ?_ w
  rintro ⟨rfl, heq⟩
  obtain ⟨-, rfl⟩ := hf.slot.field_inj h.superUse .root hk (by decide) heq
  have hsystem := h.superUse
  rw [hdir rfl] at hsystem
  cases hsystem

end Layout

theorem storeWord_asked (st : FsState) (b : Nat) (i : Fin 1024) (w : BitVec 32) :
    Asked st (st.storeWord b i w) := ⟨0, fun _ => rfl⟩

namespace Moves

/-- The same contents, with more of them cached. -/
theorem same (hasked : Asked st st') (hmapped : ∀ b, (st.cache b).isSome → (st'.cache b).isSome)
    (hcontents : st'.contents = st.contents) : Moves st use st' use := by
  refine .of_words hasked (fun b hb => ⟨hmapped b hb, .refl _⟩) fun b i _ => ?_
  unfold FsState.word
  rw [hcontents]
  exact ⟨rfl, rfl⟩

/-- A store to a word that is no type and no `f_dir`. -/
theorem store (hb : (st.cache b).isSome) (hj : j < 1024) (w : BitVec 32)
    (hword : ∀ i, FileSlot use b i → j ≠ i + W_TYPE ∧ j ≠ i + W_DIR) :
    Moves st use (st.storeWord b (Fin.ofNat 1024 j) w) use := by
  refine .of_words (storeWord_asked ..)
    (fun c hc => ⟨by rw [st.storeWord_isSome hb]; exact hc, .refl _⟩) fun c i hf => ?_
  have hlt := hf.slot.lt
  rw [word_storeWord hb hj (by simp only [W_TYPE]; omega), word_storeWord hb hj (by simp only [W_DIR]; omega),
    if_neg, if_neg]
  · exact ⟨rfl, rfl⟩
  · rintro ⟨rfl, heq⟩
    exact (hword i hf.slot).2 heq.symm
  · rintro ⟨rfl, heq⟩
    exact (hword i hf.slot).1 heq.symm

/-- A store to a slot of a block number. -/
theorem storePtr (hsuper : use 1 = some .system) (hp : Ptr st use b j u) (hb : (st.cache b).isSome)
    (w : BitVec 32) : Moves st use (st.storeWord b (Fin.ofNat 1024 j) w) use :=
  .store hb hp.lt w fun _ hf => ⟨hp.ne_type hsuper hf, hp.ne_field hsuper hf (by decide) (by decide)⟩

/-- A store to another field of a file. -/
theorem storeField (hsuper : use 1 = some .system) (hf : FileAt st use b i) (hk : k < 64)
    (hne : k ≠ W_TYPE ∧ k ≠ W_DIR) (w : BitVec 32) :
    Moves st use (st.storeWord b (Fin.ofNat 1024 (i + k)) w) use := by
  have hlt := hf.slot.lt
  refine .store hf.cached (by omega) w fun i' hf' => ⟨fun heq => ?_, fun heq => ?_⟩
  · exact hne.1 (hf.slot.field_inj hsuper hf' hk (by decide) heq).2
  · exact hne.2 (hf.slot.field_inj hsuper hf' hk (by decide) heq).2

end Moves

/-- A file system whose root has no block: the first `n` blocks are of the system. -/
theorem Layout.empty_root {n : Nat} (hfresh : FreshInv st) (hsize : st.nblocks ≤ DISKMAX / BY2BLK)
    (hn : n ≤ st.nblocks) (hcached : ∀ b < n, (st.cache b).isSome) (h1 : 1 < n)
    (hbitmap : ∀ c < st.nblocks, c / BIT2BLK + 2 < n)
    (hroot : ∀ k, W_DIRECT ≤ k → k ≤ W_DIR → st.word 1 (2 + k) = 0) :
    Layout st fun b => if b < n then some .system else none := by
  have huse : ∀ {b u}, (if b < n then some Use.system else none) = some u → b < n ∧ u = .system := by
    intro b u hb
    split_ifs at hb with hlt
    exact ⟨hlt, (Option.some.inj hb).symm⟩
  have hslot : ∀ {b i}, FileSlot (fun b => if b < n then some .system else none) b i → b = 1 ∧ i = 2 := by
    intro b i hf
    cases hf with
    | root => exact ⟨rfl, rfl⟩
    | entry hb => cases (huse hb).2
  have hzero : ∀ b i u, Ptr st (fun b => if b < n then some .system else none) b i u → st.word b i = 0 := by
    intro b i u hp
    cases hp with
    | @direct i k hf hk =>
      obtain ⟨rfl, rfl⟩ := hslot hf
      simp only [NDIRECT] at hk
      rw [Nat.add_assoc]
      exact hroot (W_DIRECT + k) (Nat.le_add_right _ _) (by simp only [W_DIRECT, W_DIR]; omega)
    | @table i hf =>
      obtain ⟨rfl, rfl⟩ := hslot hf
      exact hroot W_INDIRECT (by decide) (by decide)
    | entry hb => cases (huse hb).2
  exact
    { ready := hfresh.ready
      size := hsize
      inUse := fun b u hb => ⟨Nat.lt_of_lt_of_le (huse hb).1 hn, hfresh.used b (hcached b (huse hb).1)⟩
      superUse := if_pos h1
      bitmapUse := fun c hc => if_pos (hbitmap c hc)
      names := fun b i u hp => Or.inl (hzero b i u hp)
      once := fun b i u b' i' u' hp _ hne => absurd (hzero b i u hp) hne
      rootDir := hroot W_DIR (by decide) (by decide) }

-- ---------------------------------------------------------------------------
-- Stores of clients
-- ---------------------------------------------------------------------------

theorem clientStore_contents (hb : (st.cache b).isSome) (i : Fin 1024) (w : BitVec 32) :
    (st.clientStore b i w).contents = (st.storeWord b i w).contents := by
  obtain ⟨q, hq, hstore⟩ := clientStore_page hb i w
  rw [hstore]
  funext c
  rw [setPage_contents, storeWord_contents hb, hq, contents_mapped hb]

theorem clientStore_ready {i : Fin 1024} (h : Ready st) (hplain : Plain st b i) (w : BitVec 32) :
    Ready (st.clientStore b i w) := by
  obtain ⟨hwords, hcache⟩ := clientStore_same hplain.cached i w
  obtain ⟨q, -, hpage⟩ := clientStore_page hplain.cached i w
  have hn : (st.clientStore b i w).nblocks = st.nblocks := by
    rw [← hplain.nblocks w]
    unfold FsState.nblocks
    rw [hwords]
  refine h.of_mapped ?_ ?_ (fun c hc => ?_) (Nat.le_of_eq hn)
  · rw [hpage]
    rfl
  · rw [hpage]
    rfl
  · rw [hcache, st.storeWord_isSome hplain.cached]
    exact hc

/-- A client stores to the data of a file, or to what was that. -/
theorem Layout.client (h : Layout st use) (hb : (st.cache b).isSome) (hu : Loose (use b))
    (i : Fin 1024) (w : BitVec 32) :
    Layout (st.clientStore b i w) use ∧ Moves st use (st.clientStore b i w) use := by
  obtain ⟨j, hj, rfl⟩ : ∃ j < 1024, Fin.ofNat 1024 j = i := ⟨i.val, i.isLt, Fin.ext (Nat.mod_eq_of_lt i.isLt)⟩
  have hne : ∀ v, v ≠ .data → use b ≠ some v := by
    rintro v hv heq
    rcases hu with hu | hu
    · rw [hu] at heq
      cases heq
    · rw [hu] at heq
      cases heq
      exact hv rfl
  have hslot : ∀ i, ¬ FileSlot use b i := by
    intro i hf
    cases hf with
    | root => exact hne .system nofun h.superUse
    | entry hdir => exact hne .dir nofun hdir
  have hplain := h.plain hb hj (Or.inr (hne .system nofun))
  have hnot : ¬ Tracked use b j := by
    rintro (⟨i, hf, -⟩ | ⟨d, htable, -⟩)
    · exact hslot i hf
    · exact hne (.table d) nofun htable
  have hstore := h.storeUntracked hj hplain hnot (fun hr => hslot 2 (hr.1 ▸ .root)) w
  have hmapped := (clientStore_same hb (Fin.ofNat 1024 j) w).2
  obtain ⟨q, -, hpage⟩ := clientStore_page hb (Fin.ofNat 1024 j) w
  refine ⟨hstore.same (clientStore_ready h.ready hplain w) (clientStore_contents hb _ w), ?_⟩
  refine (Moves.store hb hj w fun i hf => absurd hf (hslot i)).trans (.same ?_ (fun c hc => ?_)
    (clientStore_contents hb _ w))
  · rw [hpage]
    exact ⟨0, fun _ => rfl⟩
  · rw [hmapped]
    exact hc

-- ---------------------------------------------------------------------------
-- read_block and alloc_block
-- ---------------------------------------------------------------------------

/-- `read_block` left the contents alone. -/
structure BlockRead (st st' : FsState) (b : Nat) : Prop where
  cached : (st'.cache b).isSome
  contents : st'.contents = st.contents
  others : ∀ c, c ≠ b → st'.cache c = st.cache c
  fresh : FreshInv st → FreshInv st'

/-- `read_block` of a block with a use. -/
theorem readBlock_runs (h : Layout st use) (hu : use b = some u) :
    Runs layoutContract (readBlock b) st use fun _ st' use' => use' = use ∧ BlockRead st st' b := by
  obtain ⟨hlt, hused⟩ := h.inUse b u hu
  rcases readBlock_run h.ready hlt hused with ⟨isnew, st', hrun, hasked⟩ | ⟨hrun, hmem⟩
  · obtain ⟨hready, hb, hcontents⟩ := readBlock_contents h.ready hrun
    have hcache : ∀ c, c ≠ b → st'.cache c = st.cache c := by
      intro c hc
      obtain ⟨-, -, ⟨-, rfl⟩ | ⟨-, mem, rfl⟩⟩ := readBlock_ok h.ready hrun
      · rfl
      · exact FsState.setPage_of_ne _ hc _
    have hmapped : ∀ c, (st.cache c).isSome → (st'.cache c).isSome := by
      intro c hc
      by_cases hcb : c = b
      · rw [hcb]
        exact hb
      · rw [hcache c hcb]
        exact hc
    exact .of_ok (C := layoutContract) hrun (h.same hready hcontents) (.same hasked hmapped hcontents)
      ⟨rfl, hb, hcontents, hcache, fun hfresh => hfresh.readBlock hrun⟩
  · exact .of_error hrun ⟨rfl, hmem⟩

/-- What `alloc_block` did when it returned block `c`. -/
structure Allocated (st st' : FsState) (c : Nat) : Prop where
  free : st.isFree c
  ready : Ready st'
  nblocks : st'.nblocks = st.nblocks
  isFree : ∀ d, st'.isFree d ↔ st.isFree d ∧ d ≠ c
  page : st.cache c = none → st'.cache c = some ⟨zeroBlock, false⟩
  word : ∀ b j, b ≠ c → (∀ d < st.nblocks, b ≠ d / BIT2BLK + 2) → st'.word b j = st.word b j
  mapped : ∀ d, (st.cache d).isSome → (st'.cache d).isSome
  asked : Asked st st'

theorem allocBlock_allocated (h : Ready st) (hrun : allocBlock st = .ok (.ok c, st')) :
    Allocated st st' c := by
  obtain ⟨hn, hmapped⟩ := allocBlock_mapped h hrun
  obtain ⟨hready, -, -, hword⟩ := allocBlock_contents h hrun
  obtain ⟨r, st₁, hrun₁, hasked⟩ := allocBlock_run h
  rw [hrun] at hrun₁
  cases hrun₁
  obtain ⟨hfree, hisFree, hpage⟩ : st.isFree c ∧ (∀ d, st'.isFree d ↔ st.isFree d ∧ d ≠ c) ∧
      (st.cache c = none → st'.cache c = some ⟨zeroBlock, false⟩) := by
    rcases allocBlock_ok h hrun with ⟨hr, -⟩ | ⟨c', mem, -, hfree, hcases⟩
    · cases hr
    · rcases hcases with ⟨hr, hsome, rfl⟩ | ⟨hr, hnone, rfl⟩ | ⟨hr, -⟩
      · cases hr
        refine ⟨hfree, taken_isFree st c, fun hnone => ?_⟩
        rw [taken_cache] at hsome
        unfold FsState.setUsed at hsome
        rw [st.storeWord_isSome (h.page hfree.1), hnone] at hsome
        cases hsome
      · cases hr
        refine ⟨hfree, fun d => ?_, fun _ => FsState.setPage_self ..⟩
        rw [isFree_setPage (show Ready ((st.taken c).withMem mem) from
          (h.taken hfree.1).of_mapped rfl rfl (fun _ hd => hd) (Nat.le_refl _)) hnone]
        exact taken_isFree st c d
      · cases hr
  refine ⟨hfree, hready, hn, hisFree, hpage, fun b j hb hbitmap => hword b _ hb fun heq => ?_, hmapped, hasked⟩
  rw [bitmapBlock_shift] at heq
  exact absurd heq (hbitmap c hfree.1)

/-- The blocks of `Tracked` are none of the bitmap. -/
theorem FileSlot.place (h : FileSlot use b i) : b = 1 ∨ ∃ v, use b = some v ∧ v ≠ .system := by
  cases h with
  | root => exact Or.inl rfl
  | entry hb => exact Or.inr ⟨_, hb, nofun⟩

theorem Tracked.place (h : Tracked use b j) : b = 1 ∨ ∃ v, use b = some v ∧ v ≠ .system := by
  rcases h with ⟨i, hf, -⟩ | ⟨d, hb, -⟩
  · exact hf.place
  · exact Or.inr ⟨_, hb, nofun⟩

theorem Use.ne_system {v : Option Use} (h : ∃ v', v = some v' ∧ v' ≠ .system) : v ≠ some .system := by
  obtain ⟨v', rfl, hne⟩ := h
  exact fun heq => hne (Option.some.inj heq)

namespace Layout

/-- `alloc_block` leaves the words of files alone. -/
theorem allocWord (h : Layout st use) (ha : Allocated st st' c)
    (hplace : b = 1 ∨ ∃ v, use b = some v ∧ v ≠ .system) : st'.word b j = st.word b j := by
  refine ha.word b j ?_ fun d hd => h.notBitmap (hplace.imp_right Use.ne_system) hd
  rintro rfl
  have hnone := h.unused ha.free
  rcases hplace with rfl | ⟨v, hv, -⟩
  · rw [h.superUse] at hnone
    cases hnone
  · rw [hnone] at hv
    cases hv

/-- No old use is that of a new block, which is cached only if it is of data. -/
theorem allocMoves (h : Layout st use) (ha : Allocated st st' c) (hu : u ≠ .data → st.cache c = none) :
    Moves st use st' (Function.update use c (some u)) := by
  refine .of_words ha.asked (fun d hd => ⟨ha.mapped d hd, ?_⟩) fun b i hf => ?_
  · by_cases hdc : d = c
    · subst hdc
      rw [Function.update_self, h.unused ha.free]
      have hdata : u = .data := by
        by_contra hne
        rw [hu hne] at hd
        cases hd
      rw [hdata]
      exact Or.inr ⟨nofun, nofun, Or.inr rfl⟩
    · rw [Function.update_of_ne hdc]
      exact .refl _
  · exact ⟨h.allocWord ha hf.slot.place, h.allocWord ha hf.slot.place⟩

/-- The number of a new block is stored in an empty slot. -/
theorem attachNew (h : Layout st use) (hp : Ptr st use b i u) (hb : (st.cache b).isSome)
    (hzero : st.word b i = 0) (ha : Allocated st st' c) (hu : u ≠ .data → st.cache c = none) :
    Layout (st'.storeWord b (Fin.ofNat 1024 i) (BitVec.ofNat 32 c)) (Function.update use c (some u)) ∧
      Moves st use (st'.storeWord b (Fin.ofNat 1024 i) (BitVec.ofNat 32 c))
        (Function.update use c (some u)) := by
  have hb' : (st'.cache b).isSome := ha.mapped b hb
  have hplain : Plain st' b (Fin.ofNat 1024 i) := (h.plainPtr hp hb).mono (fun _ => hb') ha.nblocks
  have hkeep : ∀ d v, use d = some v → Function.update use c (some u) d = some v := by
    intro d v hd
    rw [Function.update_of_ne, hd]
    rintro rfl
    rw [h.unused ha.free] at hd
    cases hd
  have hbc : b ≠ c := by
    rintro rfl
    obtain ⟨v, hv⟩ := h.ptrUse hp
    rw [h.unused ha.free] at hv
    cases hv
  have hmoves := h.allocMoves ha hu
  constructor
  · refine h.attach hp hzero ha.free (hplain.ready ha.ready _) ((hplain.nblocks _).trans ha.nblocks)
      (fun d => (hplain.isFree _ d).trans (ha.isFree d)) (fun hne j => ?_) ?_ (fun d j htracked hne => ?_) ?_
    · have hpage := ha.page (hu hne)
      unfold FsState.word
      rw [storeWord_contents hb', if_neg hbc.symm, contents_mapped (by rw [hpage]; rfl),
        st'.words_of_cache hpage]
      rfl
    · rw [word_storeWord hb' hp.lt hp.lt, if_pos ⟨rfl, rfl⟩]
    · rw [word_storeWord hb' hp.lt htracked.lt, if_neg hne]
      exact h.allocWord ha htracked.place
    · rw [word_storeWord hb' hp.lt (by decide), if_neg]
      · exact (h.allocWord ha (Or.inl rfl)).trans h.rootDir
      · rintro ⟨rfl, heq⟩
        exact hp.ne_field h.superUse .root (by decide) (by decide) heq.symm
  · exact hmoves.trans (.storePtr (hkeep 1 _ h.superUse) (hp.moves hb hmoves hkeep) hb' _)

end Layout

-- ---------------------------------------------------------------------------
-- The blocks of a file
-- ---------------------------------------------------------------------------

theorem allocBlock_ge (h : Ready st) (hrun : allocBlock st = .ok (.ok c, st')) : 3 ≤ c := by
  rcases allocBlock_ok h hrun with ⟨hr, -⟩ | ⟨c', mem, hge, -, ⟨hr, -⟩ | ⟨hr, -⟩ | ⟨hr, -⟩⟩
  · cases hr
  · cases hr
    exact hge
  · cases hr
    exact hge
  · cases hr

theorem allocBlock_error (h : Ready st) {e : Int} (hrun : allocBlock st = .ok (.error e, st')) : e < 0 := by
  rcases allocBlock_ok h hrun with ⟨hr, -⟩ | ⟨c, mem, -, -, ⟨hr, -⟩ | ⟨hr, -⟩ | ⟨hr, -⟩⟩
  · cases hr
    decide
  · cases hr
  · cases hr
  · cases hr
    decide

/-- `alloc_block` would take a block that is not cached. -/
def FsState.NextFresh (st : FsState) : Prop := ∀ c st', allocBlock st = .ok (.ok c, st') → st.cache c = none

theorem FreshInv.next (h : FreshInv st) : st.NextFresh :=
  fun _ _ hrun => h.free ((h.allocBlock hrun).2 _ rfl).1

/-- What a function that frees nothing leaves. -/
structure Grows (st : FsState) (use : Uses) (st' : FsState) (use' : Uses) : Prop where
  uses : ∀ d v, use d = some v → use' d = some v
  fresh : FreshInv st → FreshInv st'

namespace Grows

theorem refl (st : FsState) (use : Uses) : Grows st use st use := ⟨fun _ _ hd => hd, id⟩

theorem trans {st₁ st₂ : FsState} {use₁ use₂ : Uses} (h : Grows st use st₁ use₁)
    (h' : Grows st₁ use₁ st₂ use₂) : Grows st use st₂ use₂ :=
  ⟨fun d v hd => h'.uses d v (h.uses d v hd), fun hfresh => h'.fresh (h.fresh hfresh)⟩

end Grows

theorem BlockRead.grows (h : BlockRead st st' b) : Grows st use st' use := ⟨fun _ _ hd => hd, h.fresh⟩

/-- The slot at a pointer names a block in the end. -/
theorem needBlock_runs (h : Layout st use) (hp : Ptr st use b i u) (hb : (st.cache b).isSome)
    (hnext : st.word b i = 0 → u ≠ .data → st.NextFresh) :
    Runs layoutContract (needBlock (addr b i) true) st use fun r st' use' => Grows st use st' use' ∧
      (st.word b i ≠ 0 → st' = st) ∧ (¬ r < 0 → st'.word b i ≠ 0) := by
  obtain ⟨v, hv⟩ := h.ptrUse hp
  unfold needBlock
  refine .bind_same (h.loadAt hv hb hp.lt) ?_
  by_cases hzero : st.word b i = 0
  · rw [if_pos hzero, if_pos rfl]
    obtain ⟨r, st₁, halloc, hasked⟩ := allocBlock_run h.ready
    have hfresh : FreshInv st → FreshInv st₁ := fun hf => (hf.allocBlock halloc).1
    cases r with
    | error e =>
      obtain ⟨hready, hcontents⟩ := allocBlock_contents h.ready halloc
      have hcontents : st₁.contents = st.contents := hcontents
      have hmapped := (allocBlock_mapped h.ready halloc).2
      exact .of_ok (C := layoutContract) (run_bind halloc _) (h.same hready hcontents)
        (.same hasked hmapped hcontents) ⟨⟨fun _ _ hd => hd, hfresh⟩, fun hne => absurd hzero hne,
          fun hr => absurd (allocBlock_error h.ready halloc) hr⟩
    | ok c =>
      have ha := allocBlock_allocated h.ready halloc
      have hb₁ := ha.mapped b hb
      obtain ⟨hlayout, hmoves⟩ := h.attachNew hp hb hzero ha fun hu => hnext hzero hu c st₁ halloc
      have hstore := storeAt_located (locate_addr (h.lt hv) hp.lt) hb₁ (BitVec.ofNat 32 c)
      have hplain : Plain st₁ b (Fin.ofNat 1024 i) := (h.plainPtr hp hb).mono (fun _ => hb₁) ha.nblocks
      refine .of_ok (C := layoutContract) ((run_bind halloc _).trans (run_bind hstore _)) hlayout hmoves
        ⟨⟨fun d v hd => ?_, fun hf => hplain.storeWord (hfresh hf) _⟩, fun hne => absurd hzero hne,
          fun _ hword => ?_⟩
      · rw [Function.update_of_ne, hd]
        rintro rfl
        rw [h.unused ha.free] at hd
        cases hd
      · rw [word_storeWord hb₁ hp.lt hp.lt, if_pos ⟨rfl, rfl⟩] at hword
        have hc : c = 0 := by
          have hlt : c < 2 ^ 32 := Nat.lt_trans ha.free.1 (st.words 1 1).isLt
          have hval := congrArg BitVec.toNat hword
          rw [BitVec.toNat_ofNat, Nat.mod_eq_of_lt hlt] at hval
          exact hval
        have hge := allocBlock_ge h.ready halloc
        omega
  · rw [if_neg hzero]
    exact .of_same rfl h ⟨.refl st use, fun _ => rfl, fun _ => hzero⟩

/-- The block and the word of the slot for block `n` of a file. -/
def FsState.slot (st : FsState) (b i n : Nat) : Option (Nat × Nat) :=
  if n < NDIRECT then some (b, i + W_DIRECT + n)
  else if n < NINDIRECT ∧ st.word b (i + W_INDIRECT) ≠ 0 then
    some ((st.word b (i + W_INDIRECT)).toNat, n)
  else none

theorem slot_congr (hcontents : st'.contents = st.contents) (b i n : Nat) :
    st'.slot b i n = st.slot b i n := by
  unfold FsState.slot FsState.word
  rw [hcontents]

theorem Layout.slot_ptr (h : Layout st use) (hf : FileSlot use b i) {n b' j : Nat}
    (hs : st.slot b i n = some (b', j)) : Ptr st use b' j (.content (st.isDir b i)) := by
  unfold FsState.slot at hs
  split_ifs at hs with hn hn'
  · cases hs
    exact .direct hf hn
  · cases hs
    exact .entry (h.ptrNamed (.table hf) hn'.2) (Nat.not_lt.mp hn) hn'.1

/-- `file_block_walk`, with `alloc`. -/
theorem fileBlockWalk_runs (h : Layout st use) (hf : FileAt st use b i) (n : Nat)
    (hnext : NDIRECT ≤ n → n < NINDIRECT → st.word b (i + W_INDIRECT) = 0 → st.NextFresh) :
    Runs layoutContract (fileBlockWalk (addr b i) n true) st use fun r st' use' =>
      Grows st use st' use' ∧ (st.slot b i n ≠ none ∨ NINDIRECT ≤ n → st'.contents = st.contents) ∧
        ∀ ptr, r = .ok ptr → n < NINDIRECT ∧ ∃ b' j, ptr = addr b' j ∧ (st'.cache b').isSome ∧
          st'.slot b i n = some (b', j) := by
  unfold fileBlockWalk
  refine .ite (fun hn => ?_) fun hn => .ite (fun hn' => ?_) fun _ =>
    .of_same rfl h ⟨.refl st use, fun _ => rfl, nofun⟩
  · refine .of_same rfl h ⟨.refl st use, fun _ => rfl, fun ptr hptr => ⟨?_, b, i + W_DIRECT + n, ?_, hf.cached, ?_⟩⟩
    · exact Nat.lt_trans hn (by decide)
    · cases hptr
      exact addr_direct b i n
    · unfold FsState.slot
      rw [if_pos hn]
  · have hlo := Nat.not_lt.mp hn
    rw [addr_indirect]
    refine (needBlock_runs h (.table hf.slot) hf.cached fun hzero _ => hnext hlo hn' hzero).bind ?_
    rintro r st₁ use₁ h₁ hm₁ ⟨hgrows, hsame, hword⟩
    have hp : Ptr st₁ use₁ b (i + W_INDIRECT) (.table (st.isDir b i)) :=
      (Ptr.table hf.slot).moves hf.cached hm₁ hgrows.uses
    -- a slot there is already has a table
    have hcontents : st.slot b i n ≠ none ∨ NINDIRECT ≤ n → st₁.contents = st.contents := by
      rintro (hs | hge)
      · rw [hsame]
        intro hzero
        refine hs ?_
        unfold FsState.slot
        rw [if_neg hn, if_neg fun hc => hc.2 hzero]
      · omega
    refine .ite (fun _ => .of_same rfl h₁ ⟨hgrows, hcontents, nofun⟩) fun hr => ?_
    refine .bind_same (h₁.loadField (hf.moves hm₁) (by decide)) ?_
    refine (readBlock_runs h₁ (h₁.ptrNamed hp (hword hr))).bind ?_
    rintro _ st₂ use₂ h₂ hm₂ ⟨rfl, hread⟩
    refine .of_same rfl h₂ ⟨hgrows.trans hread.grows, fun hs => hread.contents.trans (hcontents hs),
      fun ptr hptr => ⟨hn', ?_⟩⟩
    cases hptr
    refine ⟨_, n, rfl, hread.cached, ?_⟩
    rw [slot_congr hread.contents]
    unfold FsState.slot
    rw [if_neg hn, if_pos ⟨hn', hword hr⟩]

/-- Block `n` of a file is `d`. -/
def FsState.Names (st : FsState) (b i n d : Nat) : Prop :=
  ∃ b' j, st.slot b i n = some (b', j) ∧ st.word b' j ≠ 0 ∧ d = (st.word b' j).toNat

/-- Block `n` of a file is missing. -/
def FsState.Hole (st : FsState) (b i n : Nat) : Prop := n < NINDIRECT ∧ ∀ d, ¬ st.Names b i n d

/-- A table, and a block of a directory, that `file_get_block` takes for block `n` of a file was not
cached. -/
structure TakesFresh (st : FsState) (b i n : Nat) : Prop where
  table : NDIRECT ≤ n → n < NINDIRECT → st.word b (i + W_INDIRECT) = 0 → st.NextFresh
  content : st.isDir b i = true → st.Hole b i n → FreshInv st

theorem TakesFresh.of_fresh {n : Nat} (h : FreshInv st ∨ ¬ st.Hole b i n) : TakesFresh st b i n := by
  have hfresh : st.Hole b i n → FreshInv st := fun hhole => h.resolve_right fun hne => hne hhole
  refine ⟨fun hlo hhi hzero => (hfresh ⟨hhi, ?_⟩).next, fun _ => hfresh⟩
  rintro d ⟨b', j, hs, -⟩
  unfold FsState.slot at hs
  rw [if_neg (Nat.not_lt.mpr hlo), if_neg fun hc => hc.2 hzero] at hs
  cases hs

/-- `file_map_block`, with `alloc`. -/
theorem fileMapBlock_runs (h : Layout st use) (hf : FileAt st use b i) {n : Nat}
    (htakes : TakesFresh st b i n) :
    Runs layoutContract (fileMapBlock (addr b i) n true) st use fun r st' use' =>
      Grows st use st' use' ∧
        (¬ st.Hole b i n → st'.contents = st.contents ∧ ∀ d, r = .ok d → st.Names b i n d) ∧
        ∀ d, r = .ok d → use' d = some (.content (st.isDir b i)) := by
  unfold fileMapBlock
  refine (fileBlockWalk_runs h hf n htakes.table).bind ?_
  rintro r st₁ use₁ h₁ hm₁ ⟨hgrows, hsame, hwalk⟩
  -- there is a slot, or none is looked for
  have hslot : ¬ st.Hole b i n → st.slot b i n ≠ none ∨ NINDIRECT ≤ n := by
    intro hhole
    by_cases hn : n < NINDIRECT
    · refine Or.inl fun hnone => hhole ⟨hn, ?_⟩
      rintro d ⟨b', j, hs, -⟩
      rw [hnone] at hs
      cases hs
    · exact Or.inr (Nat.not_lt.mp hn)
  cases r with
  | error e => exact .of_same rfl h₁ ⟨hgrows, fun hhole => ⟨hsame (hslot hhole), nofun⟩, nofun⟩
  | ok ptr =>
    obtain ⟨hn, b', j, rfl, hb, hs⟩ := hwalk ptr rfl
    have hp : Ptr st₁ use₁ b' j (.content (st.isDir b i)) := by
      rw [← hm₁.type b i hf]
      exact h₁.slot_ptr (hf.moves hm₁).slot hs
    -- an empty slot now was one before, or there was no table
    have hhole : st₁.word b' j = 0 → st.Hole b i n := by
      intro hzero
      refine ⟨hn, ?_⟩
      rintro d ⟨b'', j', hs', hne, -⟩
      have hcontents := hsame (Or.inl (by rw [hs']; nofun))
      rw [slot_congr hcontents, hs'] at hs
      cases hs
      unfold FsState.word at hzero hne
      rw [← hcontents] at hne
      exact hne hzero
    have hnext : st₁.word b' j = 0 → Use.content (st.isDir b i) ≠ .data → st₁.NextFresh := by
      intro hzero hdata
      refine (hgrows.fresh (htakes.content ?_ (hhole hzero))).next
      by_contra hdir
      rw [Bool.not_eq_true] at hdir
      rw [hdir] at hdata
      exact hdata rfl
    refine (needBlock_runs h₁ hp hb hnext).bind ?_
    rintro r st₂ use₂ h₂ hm₂ ⟨hgrows₂, hsame₂, hword⟩
    have hcontents : ¬ st.Hole b i n → st₂.contents = st.contents := by
      intro hno
      rw [hsame₂ fun hzero => hno (hhole hzero)]
      exact hsame (hslot hno)
    refine .ite (fun _ => .of_same rfl h₂
      ⟨hgrows.trans hgrows₂, fun hno => ⟨hcontents hno, nofun⟩, nofun⟩) fun hr => ?_
    have hp₂ := hp.moves hb hm₂ hgrows₂.uses
    obtain ⟨v, hv⟩ := h₂.ptrUse hp₂
    refine .bind_same (h₂.loadAt hv (hm₂.page b' hb).1 hp₂.lt)
      (.of_same rfl h₂ ⟨hgrows.trans hgrows₂, fun hno => ⟨hcontents hno, fun d hd => ?_⟩, fun d hd => ?_⟩)
    · cases hd
      have hs₂ := slot_congr (hsame (hslot hno)) b i n
      have hw : st.word b' j = st₂.word b' j := by
        unfold FsState.word
        rw [hcontents hno]
      exact ⟨b', j, hs₂.symm.trans hs, by rw [hw]; exact hword hr, by rw [hw]⟩
    · cases hd
      exact h₂.ptrNamed hp₂ (hword hr)

/-- `file_get_block` finds a block of the file's own, and caches it. -/
theorem fileGetBlock_runs (h : Layout st use) (hf : FileAt st use b i) {n : Nat}
    (htakes : TakesFresh st b i n) :
    Runs layoutContract (fileGetBlock (addr b i) n) st use fun r st' use' =>
      (FreshInv st → FreshInv st') ∧
        (¬ st.Hole b i n → st'.contents = st.contents ∧ ∀ d, r = .ok d → st.Names b i n d) ∧
        ∀ d, r = .ok d → (st'.cache d).isSome ∧ use' d = some (.content (st.isDir b i)) := by
  unfold fileGetBlock
  refine (fileMapBlock_runs h hf htakes).bind ?_
  rintro r st₁ use₁ h₁ hm₁ ⟨hgrows, hsame, hmap⟩
  cases r with
  | error e => exact .of_same rfl h₁ ⟨hgrows.fresh, hsame, nofun⟩
  | ok d =>
    refine (readBlock_runs h₁ (hmap d rfl)).bind ?_
    rintro _ st₂ use₂ h₂ hm₂ ⟨rfl, hread⟩
    refine .of_same rfl h₂ ⟨fun hfresh => hread.fresh (hgrows.fresh hfresh),
      fun hno => ⟨hread.contents.trans (hsame hno).1, (hsame hno).2⟩, fun d' hd => ?_⟩
    cases hd
    exact ⟨hread.cached, hmap d rfl⟩

/-- No block but the table of the file at word `i` of block `b` was read, and that not
for a slot in the file itself. -/
structure ReadsTable (st st' : FsState) (b i n : Nat) : Prop where
  contents : st'.contents = st.contents
  mapped : ∀ c, (st'.cache c).isSome → (st.cache c).isSome ∨
    NDIRECT ≤ n ∧ st.word b (i + W_INDIRECT) ≠ 0 ∧ c = (st.word b (i + W_INDIRECT)).toNat

theorem ReadsTable.refl (st : FsState) (b i n : Nat) : ReadsTable st st b i n := ⟨rfl, fun _ hc => Or.inl hc⟩

theorem needBlock_eq {va : Nat} {w : BitVec 32} (hload : loadAt va st = .ok (w, st)) :
    needBlock va false st = .ok (if w = 0 then -E_NOT_FOUND else 0, st) := by
  unfold needBlock
  rw [run_bind hload]
  by_cases hw : w = 0
  · rw [if_pos hw, if_neg Bool.false_ne_true, if_pos hw]
    rfl
  · rw [if_neg hw, if_neg hw]
    rfl

/-- `file_block_walk` without `alloc` finds the slot, if there is one. -/
theorem fileBlockWalk_reads (h : Layout st use) (hf : FileAt st use b i) (n : Nat) :
    Runs layoutContract (fileBlockWalk (addr b i) n false) st use fun r st' use' =>
      use' = use ∧ ReadsTable st st' b i n ∧ match st.slot b i n with
        | some (b', j) => r = .ok (addr b' j) ∧ (st'.cache b').isSome
        | none => ∃ e, r = .error e := by
  unfold fileBlockWalk FsState.slot
  by_cases hn : n < NDIRECT
  · rw [if_pos hn, if_pos hn]
    exact .of_same rfl h ⟨rfl, .refl st b i n, congrArg Except.ok (addr_direct b i n), hf.cached⟩
  · rw [if_neg hn, if_neg hn]
    by_cases hn' : n < NINDIRECT
    · have hload := h.loadField hf (k := W_INDIRECT) (by decide)
      rw [if_pos hn', addr_indirect]
      refine .bind_same (needBlock_eq hload) ?_
      by_cases hzero : st.word b (i + W_INDIRECT) = 0
      · rw [if_pos hzero, if_pos (by decide), if_neg fun hc => hc.2 hzero]
        exact .of_same rfl h ⟨rfl, .refl st b i n, _, rfl⟩
      · rw [if_neg hzero, if_neg (by decide), if_pos ⟨hn', hzero⟩]
        refine .bind_same hload ((readBlock_runs h (h.ptrNamed (.table hf.slot) hzero)).bind ?_)
        rintro _ st₁ use₁ h₁ hm₁ ⟨rfl, hread⟩
        refine .of_same rfl h₁ ⟨rfl, ⟨hread.contents, fun c hc => ?_⟩, rfl, hread.cached⟩
        by_cases hci : c = (st.word b (i + W_INDIRECT)).toNat
        · exact Or.inr ⟨Nat.not_lt.mp hn, hzero, hci⟩
        · rw [hread.others c hci] at hc
          exact Or.inl hc
    · rw [if_neg hn', if_neg fun hc => hn' hc.1]
      exact .of_same rfl h ⟨rfl, .refl st b i n, _, rfl⟩

/-- `file_map_block` without `alloc`. -/
theorem fileMapBlock_reads (h : Layout st use) (hf : FileAt st use b i) (n : Nat) :
    Runs layoutContract (fileMapBlock (addr b i) n false) st use fun _ _ use' => use' = use := by
  unfold fileMapBlock
  refine (fileBlockWalk_reads h hf n).bind ?_
  rintro r st₁ use₁ h₁ hm₁ ⟨rfl, htable, hwalk⟩
  cases hs : st.slot b i n with
  | none =>
    rw [hs] at hwalk
    obtain ⟨e, rfl⟩ := hwalk
    exact .of_same rfl h₁ rfl
  | some p =>
    obtain ⟨b', j⟩ := p
    rw [hs] at hwalk
    obtain ⟨rfl, hb⟩ := hwalk
    have hp := h.slot_ptr hf.slot hs
    obtain ⟨v, hv⟩ := h.ptrUse hp
    have hload := h₁.loadAt hv hb hp.lt
    refine .bind_same (needBlock_eq hload) (.ite (fun _ => .of_same rfl h₁ rfl) fun _ => ?_)
    exact .bind_same hload (.of_same rfl h₁ rfl)

-- ---------------------------------------------------------------------------
-- Writing back
-- ---------------------------------------------------------------------------

/-- A page that is written back stays as it is. -/
theorem syncBlock_runs (h : Layout st use) (d : Nat) :
    Runs layoutContract (syncBlock d) st use fun _ st' use' => use' = use ∧ st'.cache = st.cache := by
  unfold syncBlock
  refine .bind_same (blockIsDirty_eq d st) ?_
  by_cases hdirty : st.isDirty d = true
  · have hd := isDirty_isSome hdirty
    have hcontents := setDisk_contents hd (st.words d)
    rw [if_pos hdirty]
    have hready : Ready (st.setDisk d (st.words d)) :=
      h.ready.of_mapped rfl rfl (fun _ hc => hc) (Nat.le_refl _)
    exact .of_ok (C := layoutContract) (writeBlock_mapped hd) (h.same hready hcontents)
      (.same ⟨0, fun _ => rfl⟩ (fun _ hc => hc) hcontents) ⟨rfl, rfl⟩
  · rw [if_neg hdirty]
    exact .of_same rfl h ⟨rfl, rfl⟩

theorem dirtyBlock_runs (h : Layout st use) (d : Nat) :
    Runs layoutContract (dirtyBlock d) st use fun _ _ use' => use' = use := by
  cases hrun : dirtyBlock d st with
  | error e =>
    unfold dirtyBlock at hrun
    rw [run_get] at hrun
    cases hc : st.cache d with
    | none =>
      rw [hc] at hrun
      cases hrun
    | some p =>
      simp only [hc] at hrun
      split_ifs at hrun
      · cases hrun
      · cases hrun
  | ok p =>
    obtain ⟨r, st'⟩ := p
    obtain ⟨hready, hcontents⟩ := dirtyBlock_contents h.ready hrun
    have hcache := (dirtyBlock_same hrun).2
    have hasked : Asked st st' := by
      rcases dirtyBlock_ok hrun with rfl | ⟨p, -, rfl⟩
      · exact .refl _
      · exact ⟨0, fun _ => rfl⟩
    exact .of_ok (C := layoutContract) hrun
      (h.same hready hcontents)
      (.same hasked (fun c hc => by rw [hcache]; exact hc) hcontents) rfl

theorem fileDirty_runs (h : Layout st use) (hf : FileAt st use b i) (offset : Nat) :
    Runs layoutContract (fileDirty (addr b i) offset) st use fun _ _ use' => use' = use := by
  unfold fileDirty
  refine (fileMapBlock_reads h hf _).bind ?_
  rintro r st₁ use₁ h₁ - rfl
  cases r with
  | error e => exact .of_same rfl h₁ rfl
  | ok d => exact dirtyBlock_runs h₁ d

/-- One round of `file_flush`. -/
theorem flushBlock_runs (h : Layout st use) (hf : FileAt st use b i) (n : Nat) :
    Runs layoutContract (flushBlock (addr b i) n) st use fun _ _ use' => use' = use := by
  unfold flushBlock
  refine (fileMapBlock_reads h hf n).bind ?_
  rintro r st₁ use₁ h₁ - rfl
  cases r with
  | error e => exact .of_same rfl h₁ rfl
  | ok d => exact (syncBlock_runs h₁ d).mono fun _ _ _ _ _ hq => hq.1

theorem fileFlush_runs (h : Layout st use) (hf : FileAt st use b i) :
    Runs layoutContract (fileFlush (addr b i)) st use fun _ _ use' => use' = use := by
  unfold fileFlush
  rw [addr_size]
  refine .bind_same (h.loadField hf (by decide)) ?_
  refine (Runs.forM_range (C := layoutContract) (fun _ st' use' => FileAt st' use' b i ∧ use' = use) _ h
    ⟨hf, rfl⟩ ?_).mono fun _ _ _ _ _ hI => hI.2
  rintro n - st₁ use₁ h₁ ⟨hf₁, rfl⟩
  exact (flushBlock_runs h₁ hf₁ n).mono fun _ _ _ _ hm hq => ⟨hf₁.moves hm, hq⟩

/-- `f_dir` is null or a file. -/
theorem flushDir_runs (h : Layout st use) {f : Nat} (hf : Linked st use f) :
    Runs layoutContract (flushDir f) st use fun _ _ use' => use' = use := by
  obtain ⟨b, i, rfl, hat, hlink⟩ := hf
  unfold flushDir
  rw [addr_dir]
  refine .bind_same (h.loadField hat (by decide)) (.ite (fun hne => ?_) fun _ => .of_same rfl h rfl)
  rcases hlink with hzero | ⟨b', i', haddr, hat'⟩
  · exact absurd (BitVec.eq_of_toNat_eq hzero) hne
  · rw [haddr]
    exact fileFlush_runs h hat'

theorem fileClose_runs (h : Layout st use) {f : Nat} (hf : Linked st use f) :
    Runs layoutContract (fileClose f) st use fun _ _ use' => use' = use := by
  obtain ⟨b, i, rfl, hat⟩ := hf.fileAt
  unfold fileClose
  refine (fileFlush_runs h hat).bind ?_
  rintro _ st₁ use₁ h₁ hm₁ rfl
  exact flushDir_runs h₁ (hm₁.linked _ hf)

theorem fsSync_runs (h : Layout st use) : Runs layoutContract fsSync st use fun _ _ use' => use' = use := by
  unfold fsSync
  refine .bind_same h.ready.sNblocks ?_
  refine Runs.forM_range (C := layoutContract) (fun _ _ use' => use' = use) _ h rfl ?_
  rintro d - st₁ use₁ h₁ rfl
  exact (syncBlock_runs h₁ d).mono fun _ _ _ _ _ hq => hq.1

-- ---------------------------------------------------------------------------
-- file_truncate
-- ---------------------------------------------------------------------------

theorem setFree_word (h : Ready st) (hc : c < st.nblocks) (hb : b ≠ c / BIT2BLK + 2) (j : Nat) :
    (st.setFree c).word b j = st.word b j := by
  unfold FsState.word FsState.setFree
  rw [storeWord_contents (h.page hc), if_neg]
  rw [bitmapBlock_shift]
  exact hb

/-- What a block that is freed, and the slot that named it, leave behind. -/
structure Detached (st st' : FsState) (use : Uses) (b j : Nat) : Prop where
  word : ∀ d k, Tracked use d k → ¬ (d = b ∧ k = j) → st'.word d k = st.word d k
  cache : ∀ d, (st'.cache d).isSome = (st.cache d).isSome

/-- `free_block` and a store of 0, for the block that a slot names. -/
theorem freeBlock_runs (h : Layout st use) (hp : Ptr st use b j u) (hb : (st.cache b).isSome)
    (hne : st.word b j ≠ 0) (hnone : u = .dir → st.cache (st.word b j).toNat = none) :
    Runs layoutContract (do freeBlock (st.word b j).toNat; storeAt (addr b j) 0) st use
      fun _ st' use' => (∀ d k, use' d = some k → use d = some k) ∧ Detached st st' use b j := by
  obtain ⟨v, hv⟩ := h.ptrUse hp
  have hnamed := h.ptrNamed hp hne
  generalize hc : (st.word b j).toNat = c at hnone hnamed
  have hc0 : c ≠ 0 := by
    rintro rfl
    exact hne (BitVec.eq_of_toNat_eq hc)
  have hlt : c < st.nblocks := (h.inUse _ _ hnamed).1
  have hfree := h.ready.freeBlock c
  rw [if_pos ⟨hc0, hlt⟩] at hfree
  have hcached : ∀ d, ((st.setFree c).cache d).isSome = (st.cache d).isSome :=
    fun d => st.storeWord_isSome (h.ready.page hlt) d _ _
  have hb' : ((st.setFree c).cache b).isSome := by
    rw [hcached]
    exact hb
  have hstore : storeAt (addr b j) 0 (st.setFree c) =
      .ok ((), (st.setFree c).storeWord b (Fin.ofNat 1024 j) 0) :=
    storeAt_located (locate_addr (h.lt hv) hp.lt) hb' 0
  have hplain : Plain (st.setFree c) b (Fin.ofNat 1024 j) :=
    (h.plainPtr hp hb).mono (fun _ => hb') (nblocks_storeWord ..)
  have hsame : ∀ {d k}, (d = 1 ∨ ∃ v, use d = some v ∧ v ≠ .system) →
      (st.setFree c).word d k = st.word d k :=
    fun hplace => setFree_word h.ready hlt (h.notBitmap (hplace.imp_right Use.ne_system) hlt) _
  have hword : ∀ d k, Tracked use d k → ¬ (d = b ∧ k = j) →
      ((st.setFree c).storeWord b (Fin.ofNat 1024 j) 0).word d k = st.word d k := by
    intro d k htracked hdk
    rw [word_storeWord hb' hp.lt htracked.lt, if_neg hdk]
    exact hsame htracked.place
  have hlayout := h.detach hp hne hc (hplain.ready (h.ready.setFree hlt) 0)
    ((hplain.nblocks 0).trans (nblocks_storeWord ..))
    (fun d => (hplain.isFree 0 d).trans (setFree_isFree st hlt d))
    (by rw [word_storeWord hb' hp.lt hp.lt, if_pos ⟨rfl, rfl⟩]) hword
    (by
      rw [word_storeWord hb' hp.lt (by decide), if_neg]
      · exact (hsame (Or.inl rfl)).trans h.rootDir
      · rintro ⟨rfl, heq⟩
        exact hp.ne_field h.superUse .root (by decide) (by decide) heq.symm)
  have hkeep : ∀ d, (st.cache d).isSome → Keeps (use d) (Function.update use c none d) := by
    intro d hd
    by_cases hdc : d = c
    · subst hdc
      rw [Function.update_self, hnamed]
      refine Or.inr ⟨fun hdir => ?_, fun hsystem => hp.ne_system (Option.some.inj hsystem), Or.inl rfl⟩
      rw [hnone (Option.some.inj hdir)] at hd
      cases hd
    · rw [Function.update_of_ne hdc]
      exact .refl _
  have hmoves : Moves st use ((st.setFree c).storeWord b (Fin.ofNat 1024 j) 0) (Function.update use c none) := by
    refine .of_words ⟨0, fun _ => rfl⟩ (fun d hd => ⟨?_, hkeep d hd⟩) fun d i hf => ⟨?_, ?_⟩
    · rw [FsState.storeWord_isSome _ hb', hcached]
      exact hd
    · have hlt := hf.slot.lt
      rw [word_storeWord hb' hp.lt (by simp only [W_TYPE]; omega), if_neg]
      · exact hsame hf.slot.place
      · rintro ⟨rfl, heq⟩
        exact hp.ne_type h.superUse hf.slot heq.symm
    · have hlt := hf.slot.lt
      rw [word_storeWord hb' hp.lt (by simp only [W_DIR]; omega), if_neg]
      · exact hsame hf.slot.place
      · rintro ⟨rfl, heq⟩
        exact hp.ne_field h.superUse hf.slot (by decide) (by decide) heq.symm
  refine .of_ok (C := layoutContract) ((run_bind hfree _).trans hstore) hlayout hmoves
    ⟨fun d k hd => ?_, hword, fun d => ?_⟩
  · by_cases hdc : d = c
    · rw [hdc, Function.update_self] at hd
      cases hd
    · rwa [Function.update_of_ne hdc] at hd
  · rw [FsState.storeWord_isSome _ hb', hcached]

/-- The slots of a file are apart. -/
theorem Layout.slot_inj (h : Layout st use) (hf : FileSlot use b i) {n n' : Nat} {p : Nat × Nat}
    (hs : st.slot b i n = some p) (hs' : st.slot b i n' = some p) : n = n' := by
  have htable : ∀ {m}, st.word b (i + W_INDIRECT) ≠ 0 → (b, i + W_DIRECT + m) ≠
      ((st.word b (i + W_INDIRECT)).toNat, n') ∧ (b, i + W_DIRECT + m) ≠
      ((st.word b (i + W_INDIRECT)).toNat, n) := by
    intro m hne
    have hb : b ≠ (st.word b (i + W_INDIRECT)).toNat := by
      intro heq
      have huse := h.ptrNamed (.table hf) hne
      rw [← heq] at huse
      exact hf.notTable h.superUse _ huse
    exact ⟨fun heq => hb (Prod.mk.inj heq).1, fun heq => hb (Prod.mk.inj heq).1⟩
  unfold FsState.slot at hs hs'
  split_ifs at hs with hn hn₁
  · cases hs
    split_ifs at hs' with hn' hn₁'
    · have heq := (Prod.mk.inj (Option.some.inj hs')).2
      omega
    · exact absurd (Option.some.inj hs').symm (htable hn₁'.2).1
  · cases hs
    split_ifs at hs' with hn' hn₁'
    · exact absurd (Option.some.inj hs') (htable hn₁.2).2
    · exact (Prod.mk.inj (Option.some.inj hs')).2.symm

/-- `file_clear_block` left the words that matter alone, but for the slot. -/
structure Cleared (st st' : FsState) (use use' : Uses) (b i n : Nat) : Prop where
  word : ∀ d k, Tracked use d k → st.slot b i n ≠ some (d, k) → st'.word d k = st.word d k
  mapped : ∀ c, (st'.cache c).isSome → (st.cache c).isSome ∨
    NDIRECT ≤ n ∧ st.word b (i + W_INDIRECT) ≠ 0 ∧ c = (st.word b (i + W_INDIRECT)).toNat
  uses : ∀ d v, use' d = some v → use d = some v

theorem fileClearBlock_runs (h : Layout st use) (hf : FileAt st use b i) (n : Nat)
    (hnone : st.isDir b i = true → ∀ d, st.Names b i n d → st.cache d = none) :
    Runs layoutContract (fileClearBlock (addr b i) n) st use fun _ st' use' => Cleared st st' use use' b i n := by
  unfold fileClearBlock
  refine (fileBlockWalk_reads h hf n).bind ?_
  rintro r st₁ use₁ h₁ hm₁ ⟨rfl, hreads, hwalk⟩
  have hword₁ : st₁.word = st.word := by
    funext d k
    unfold FsState.word
    rw [hreads.contents]
  cases hs : st.slot b i n with
  | none =>
    rw [hs] at hwalk
    obtain ⟨e, rfl⟩ := hwalk
    exact .of_same rfl h₁ ⟨fun d k _ _ => by rw [hword₁], hreads.mapped, fun _ _ hd => hd⟩
  | some p =>
    obtain ⟨b', j⟩ := p
    rw [hs] at hwalk
    obtain ⟨rfl, hb⟩ := hwalk
    have hs₁ : st₁.slot b i n = some (b', j) := by
      unfold FsState.slot at hs ⊢
      rw [hword₁]
      exact hs
    have hp₁ := h₁.slot_ptr hf.slot hs₁
    obtain ⟨v, hv⟩ := h₁.ptrUse hp₁
    refine .bind_same (h₁.loadAt hv hb hp₁.lt) (.ite (fun hne => ?_) fun _ => ?_)
    · have hnone₁ : Use.content (st₁.isDir b i) = .dir → st₁.cache (st₁.word b' j).toNat = none := by
        intro hcontent
        have hdir : st.isDir b i = true := by
          rw [← hm₁.type b i hf]
          exact Use.content_inj (show _ = Use.content true from hcontent)
        rw [hword₁] at hne ⊢
        refine Option.not_isSome_iff_eq_none.mp fun hsome => ?_
        rcases hreads.mapped _ hsome with hold | ⟨-, htable, heq⟩
        · rw [hnone hdir _ ⟨b', j, hs, hne, rfl⟩] at hold
          cases hold
        · -- the table is no block of contents
          have huse := h.ptrNamed (h.slot_ptr hf.slot hs) hne
          rw [heq, h.ptrNamed (.table hf.slot) htable] at huse
          exact (Use.content_ne _).2 _ (Option.some.inj huse).symm
      refine (freeBlock_runs h₁ hp₁ hb hne hnone₁).bind₂ ?_
      rintro _ st₂ use₂ h₂ hm₂ ⟨huse, hdetached⟩
      refine .of_same rfl h₂ ⟨fun d k htracked hdk => ?_, fun c hc => ?_, huse⟩
      · rw [hdetached.word d k htracked, hword₁]
        rintro ⟨rfl, rfl⟩
        exact hdk hs
      · rw [hdetached.cache] at hc
        exact hreads.mapped c hc
    · exact .of_same rfl h₁ ⟨fun d k _ _ => by rw [hword₁], hreads.mapped, fun _ _ hd => hd⟩

/-- The blocks from `lo` on to `old` of a directory that is truncated are not cached. -/
def TruncTidy (st : FsState) (b i lo old : Nat) : Prop :=
  st.isDir b i = true → ∀ n d, lo ≤ n → n < old → st.Names b i n d → st.cache d = none

/-- After one block. -/
theorem TruncTidy.next (h : Layout st use) (hf : FileAt st use b i) {lo old : Nat}
    (htidy : TruncTidy st b i lo old) (hm : Moves st use st' use') (hc : Cleared st st' use use' b i lo) :
    TruncTidy st' b i (lo + 1) old := by
  rintro hdir n d hn hlt ⟨b', j, hs, hne, rfl⟩
  rw [hm.type b i hf] at hdir
  -- the slot that was cleared is none of the others, nor the one of the table
  have htable : st'.word b (i + W_INDIRECT) = st.word b (i + W_INDIRECT) := by
    refine hc.word b _ (Ptr.table hf.slot : Ptr st use b _ _).tracked fun hs => ?_
    exact (Use.content_ne _).2 _ ((h.slot_ptr hf.slot hs).unique h.superUse (.table hf.slot))
  have hs : st.slot b i n = some (b', j) := by
    unfold FsState.slot at hs ⊢
    rw [htable] at hs
    exact hs
  have hp := h.slot_ptr hf.slot hs
  have hother : st.slot b i lo ≠ some (b', j) := by
    intro hs'
    have heq := h.slot_inj hf.slot hs hs'
    omega
  rw [hc.word b' j hp.tracked hother] at hne ⊢
  refine Option.not_isSome_iff_eq_none.mp fun hsome => ?_
  rcases hc.mapped _ hsome with hold | ⟨-, hne', heq⟩
  · rw [htidy hdir n _ (by omega) hlt ⟨b', j, hs, hne, rfl⟩] at hold
    cases hold
  · have huse := h.ptrNamed hp hne
    rw [heq, h.ptrNamed (.table hf.slot) hne'] at huse
    exact (Use.content_ne _).2 _ (Option.some.inj huse).symm

theorem clearIndirect_runs (h : Layout st use) (hf : FileAt st use b i) :
    Runs layoutContract (clearIndirect (addr b i)) st use fun _ _ _ => True := by
  unfold clearIndirect
  rw [addr_indirect]
  refine .bind_same (h.loadField hf (by decide)) (.ite (fun hne => ?_) fun _ => .of_same rfl h trivial)
  exact (freeBlock_runs h (.table hf.slot) hf.cached hne nofun).mono fun _ _ _ _ _ _ => trivial

/-- A store to `f_size`. -/
theorem storeSize_runs (h : Layout st use) (hf : FileAt st use b i) (w : BitVec 32) :
    Runs layoutContract (storeAt (addr b (i + W_SIZE)) w) st use fun _ _ _ => True :=
  .of_ok (C := layoutContract) (h.storeField_run hf (by decide) w)
    (h.storeField hf (by decide) (by decide) (fun heq => absurd heq (by decide)) w)
    (.storeField h.superUse hf (by decide) (by decide) w) trivial

/-- The sizes of a file, in blocks, that `file_truncate` works with. -/
def oldNblocks (st : FsState) (b i : Nat) : Nat := (st.word b (i + W_SIZE)).toNat / BY2BLK + 1
def newNblocks (newsize : Nat) : Nat := if newsize = 0 then 0 else newsize / BY2BLK + 1

/-- `file_truncate` frees no cached block of a directory. -/
def Truncates (st : FsState) (b i newsize : Nat) : Prop :=
  TruncTidy st b i (newNblocks newsize) (oldNblocks st b i)

theorem fileTruncate_runs (h : Layout st use) (hf : FileAt st use b i) {newsize : Nat}
    (htidy : Truncates st b i newsize) :
    Runs layoutContract (fileTruncate (addr b i) newsize) st use fun _ _ _ => True := by
  unfold fileTruncate
  rw [addr_size]
  refine .bind_same (h.loadField hf (by decide)) ?_
  let I : Nat → FsState → Uses → Prop := fun n st' use' => FileAt st' use' b i ∧
    TruncTidy st' b i (newNblocks newsize + n) (oldNblocks st b i)
  have hloop := Runs.forM_range (C := layoutContract) (f := fun n => do
      let _ ← fileClearBlock (addr b i) (newNblocks newsize + n)) I (oldNblocks st b i - newNblocks newsize)
    h ⟨hf, htidy⟩ ?_
  · refine hloop.bind ?_
    rintro _ st₁ use₁ h₁ hm₁ ⟨hf₁, -⟩
    refine .ite (fun _ => ?_) fun _ => storeSize_runs h₁ hf₁ _
    refine (clearIndirect_runs h₁ hf₁).bind ?_
    intro _ st₂ use₂ h₂ hm₂ _
    exact storeSize_runs h₂ (hf₁.moves hm₂) _
  · rintro n hn st₁ use₁ h₁ ⟨hf₁, htidy₁⟩
    have hlt : newNblocks newsize + n < oldNblocks st b i := by omega
    refine (fileClearBlock_runs h₁ hf₁ _ fun hdir d => htidy₁ hdir _ d (Nat.le_refl _) hlt).bind ?_
    intro _ st₂ use₂ h₂ hm₂ hcleared
    exact .of_same rfl h₂ ⟨hf₁.moves hm₂, htidy₁.next h₁ hf₁ hm₂ hcleared⟩

/-- `file_set_size`; it truncates a file that becomes smaller. -/
theorem fileSetSize_runs (h : Layout st use) (hf : Linked st use (addr b i)) (hat : FileAt st use b i)
    {newsize : Nat} (htidy : newsize < (st.word b (i + W_SIZE)).toNat → Truncates st b i newsize) :
    Runs layoutContract (fileSetSize (addr b i) newsize) st use fun _ _ _ => True := by
  have hend : ∀ {st₁ use₁}, Layout st₁ use₁ → Moves st use st₁ use₁ →
      Runs layoutContract (do
        storeAt (addr b i + F_SIZE) (BitVec.ofNat 32 newsize)
        flushDir (addr b i)
        return (0 : Int)) st₁ use₁ fun _ _ _ => True := by
    intro st₁ use₁ h₁ hm₁
    rw [addr_size]
    refine (storeSize_runs h₁ (hat.moves hm₁) _).bind ?_
    intro _ st₂ use₂ h₂ hm₂ _
    refine (flushDir_runs h₂ (hm₂.linked _ (hm₁.linked _ hf))).bind ?_
    intro _ st₃ use₃ h₃ _ _
    exact .of_same rfl h₃ trivial
  unfold fileSetSize
  rw [addr_size]
  refine .bind_same (h.loadField hat (by decide)) (.ite (fun hlt => ?_) fun _ => hend h (.refl st use))
  refine (fileTruncate_runs h hat (htidy hlt)).bind ?_
  intro _ st₁ use₁ h₁ hm₁ _
  exact hend h₁ hm₁

end Mos.Fs
