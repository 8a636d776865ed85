import Mos.Fs.Resolve

/-!
# MOS on RISC-V — what file_truncate leaves

`file_truncate` clears the slots of a file from the new end on, and gives up the table when the
direct slots are enough. `Unshared` says that no block is named twice by the files that can be
reached; `TruncatedTo` is the state that is left, with every word and every bit of the bitmap.

* `fileTruncate_truncates` — with blocks of its own, none of them of the system, a file is cut
  exactly there;
* `fileTruncate_bitmap` — a file whose table is the bitmap.
-/

namespace Mos.Fs

open Mos.Lib Mos.Kern

variable {st st' : FsState} {b c d i j k n m : Nat}

-- ---------------------------------------------------------------------------
-- Pointers
-- ---------------------------------------------------------------------------

/-- Word `j` of block `c` is a block number of the file at word `i` of block `b`. -/
inductive PtrOf (st : FsState) (b i : Nat) : Nat → Nat → Prop where
  | direct {k : Nat} (hk : k < NDIRECT) : PtrOf st b i b (i + W_DIRECT + k)
  | table : PtrOf st b i b (i + W_INDIRECT)
  | entry {n : Nat} (hne : st.word b (i + W_INDIRECT) ≠ 0) (hlo : NDIRECT ≤ n) (hhi : n < NINDIRECT) :
      PtrOf st b i (st.word b (i + W_INDIRECT)).toNat n

/-- A block number of a file that can be reached. -/
def TreePtr (st : FsState) (c j : Nat) : Prop := ∃ b i, InTree st b i ∧ PtrOf st b i c j

/-- What is named is in use and on the disk, and is named once. -/
structure Unshared (st : FsState) : Prop where
  ready : Ready st
  size : st.nblocks ≤ DISKMAX / BY2BLK
  named : ∀ c j, TreePtr st c j → st.word c j ≠ 0 → (st.word c j).toNat < st.nblocks ∧ ¬ st.isFree (st.word c j).toNat
  once : ∀ c j c' j', TreePtr st c j → TreePtr st c' j' → st.word c j ≠ 0 → st.word c j = st.word c' j' →
    c = c' ∧ j = j'

/-- No file has a block of the system. -/
def OffSystem (st : FsState) : Prop :=
  ∀ c j, TreePtr st c j → st.word c j ≠ 0 → ¬ st.isMeta (st.word c j).toNat

/-- Block `c` is none of the bitmap. -/
def FsState.notBitmap (st : FsState) (c : Nat) : Prop := ∀ d < st.nblocks, c ≠ d / BIT2BLK + 2

/-- A bit of a bitmap block. -/
def FsState.bitmapBit (st : FsState) (d : Nat) : Prop := ∃ e < st.nblocks, d / BIT2BLK = e / BIT2BLK

theorem PtrOf.of_slot (hs : st.slot b i n = some (c, j)) : PtrOf st b i c j := by
  unfold FsState.slot at hs
  split_ifs at hs with hn hn'
  · cases hs
    exact .direct hn
  · cases hs
    exact .entry hn'.2 (Nat.not_lt.mp hn) hn'.1

/-- A file lies in its block as a whole. -/
theorem InTree.lt (h : InTree st b i) : i + 64 ≤ 1024 := by
  cases h with
  | root => decide
  | entry _ _ _ _ hk =>
    simp only [FILE2BLK, BY2BLK, BY2PG, BY2FILE] at hk
    omega

namespace OffSystem

variable (ho : OffSystem st) {b' i' : Nat}
include ho

/-- The root lies in the super block, the others in blocks that slots of directories name. -/
theorem place (hf : InTree st b i) : (b = 1 ∧ i = 2) ∨ (¬ st.isMeta b ∧ (∃ k, i = 64 * k) ∧
    ∃ b₀ i₀ n c j, InTree st b₀ i₀ ∧ st.slot b₀ i₀ n = some (c, j) ∧ st.word c j ≠ 0 ∧ b = (st.word c j).toNat) := by
  cases hf with
  | root => exact Or.inl ⟨rfl, rfl⟩
  | @entry b₀ i₀ n _ k hf _ _ hd =>
    obtain ⟨c, j, hs, hne, rfl⟩ := hd
    exact Or.inr ⟨ho c j ⟨b₀, i₀, hf, .of_slot hs⟩ hne, ⟨k, rfl⟩, b₀, i₀, n, c, j, hf, hs, hne, rfl⟩

/-- Two files of a block are the same or apart. -/
theorem disjoint (hf : InTree st b i) (hf' : InTree st b i') (hlo : i < i' + 64) (hhi : i' < i + 64) : i = i' := by
  rcases ho.place hf with ⟨rfl, rfl⟩ | ⟨hmeta, ⟨k, rfl⟩, -⟩
  · rcases ho.place hf' with ⟨-, rfl⟩ | ⟨hmeta, -⟩
    · rfl
    · exact absurd (Or.inl rfl) hmeta
  · rcases ho.place hf' with ⟨rfl, -⟩ | ⟨-, ⟨k', rfl⟩, -⟩
    · exact absurd (Or.inl rfl) hmeta
    · omega

/-- A file lies in no block of the bitmap. -/
theorem notBitmap (hf : InTree st b i) : st.notBitmap b := by
  intro d hd heq
  rcases ho.place hf with ⟨rfl, -⟩ | ⟨hmeta, -⟩
  · generalize d / BIT2BLK = q at heq
    omega
  · exact hmeta (Or.inr ⟨d, hd, heq⟩)

theorem slot_ne_table (hf : InTree st b i) (hf' : InTree st b' i') (hk : k < NDIRECT) :
    ¬ (b = b' ∧ i + W_DIRECT + k = i' + W_INDIRECT) := by
  rintro ⟨rfl, heq⟩
  simp only [W_DIRECT, W_INDIRECT, NDIRECT] at heq hk
  obtain rfl := ho.disjoint hf hf' (by omega) (by omega)
  omega

end OffSystem

namespace Unshared

variable (h : Unshared st) (ho : OffSystem st) {b' i' : Nat}
include h ho

/-- No file lies in a block that is the table of one. A block of a directory would be named as
a table too; the slot that does is in a table again, in whose block the directory above lies. -/
theorem notTable (hf : InTree st b i) (hf' : InTree st b' i') (hne : st.word b' (i' + W_INDIRECT) ≠ 0) :
    b ≠ (st.word b' (i' + W_INDIRECT)).toNat := by
  -- the slot of a table that is named as a table is in a block with a file
  have hup : ∀ {b₀ i₀ n c j b' i'}, InTree st b₀ i₀ → st.slot b₀ i₀ n = some (c, j) → st.word c j ≠ 0 →
      InTree st b' i' → (st.word c j).toNat = (st.word b' (i' + W_INDIRECT)).toNat →
      st.word b₀ (i₀ + W_INDIRECT) ≠ 0 ∧ (st.word b₀ (i₀ + W_INDIRECT)).toNat = b' := by
    intro b₀ i₀ n c j b' i' hf₀ hs hword hf' heq
    have hsame := h.once c j b' (i' + W_INDIRECT) ⟨b₀, i₀, hf₀, .of_slot hs⟩ ⟨b', i', hf', .table⟩ hword
      (BitVec.eq_of_toNat_eq heq)
    unfold FsState.slot at hs
    split_ifs at hs with hn hn'
    · cases hs
      exact absurd hsame (ho.slot_ne_table hf₀ hf' hn)
    · cases hs
      exact ⟨hn'.2, hsame.1⟩
  induction hf generalizing b' i' with
  | root =>
    intro heq
    exact ho _ _ ⟨b', i', hf', .table⟩ hne (Or.inl heq.symm)
  | @entry b₀ i₀ n _ k hf₀ _ _ hd _ _ ih =>
    obtain ⟨c, j, hs, hword, rfl⟩ := hd
    intro heq
    obtain ⟨hne₀, hb'⟩ := hup hf₀ hs hword hf' heq
    rcases ho.place hf' with ⟨rfl, -⟩ | ⟨-, -, b₁, i₁, n₁, c₁, j₁, hf₁, hs₁, hword₁, hb₁⟩
    · exact ho _ _ ⟨b₀, i₀, hf₀, .table⟩ hne₀ (Or.inl hb')
    · obtain ⟨hne₁, hb₀⟩ := hup hf₁ hs₁ hword₁ hf₀ (hb₁.symm.trans hb'.symm)
      exact ih hf₁ hne₁ hb₀.symm

/-- The slots of a file are apart. -/
theorem slot_inj (hf : InTree st b i) {n' : Nat} {p : Nat × Nat} (hs : st.slot b i n = some p)
    (hs' : st.slot b i n' = some p) : n = n' := by
  have hapart : st.word b (i + W_INDIRECT) ≠ 0 → b ≠ (st.word b (i + W_INDIRECT)).toNat := h.notTable ho hf hf
  unfold FsState.slot at hs hs'
  split_ifs at hs with hn hn₁
  · cases hs
    split_ifs at hs' with hn' hn₁'
    · have heq := (Prod.mk.inj (Option.some.inj hs')).2
      omega
    · exact absurd (Prod.mk.inj (Option.some.inj hs')).1.symm (hapart hn₁'.2)
  · cases hs
    split_ifs at hs' with hn' hn₁'
    · exact absurd (Prod.mk.inj (Option.some.inj hs')).1 (hapart hn₁.2)
    · exact (Prod.mk.inj (Option.some.inj hs')).2.symm

end Unshared

-- ---------------------------------------------------------------------------
-- Freeing the block that a slot names
-- ---------------------------------------------------------------------------

/-- The server goes on with what it has cached, and the size of the disk stays. -/
structure Serves (st st' : FsState) : Prop where
  asked : Asked st st'
  mapped : ∀ c, (st.cache c).isSome → (st'.cache c).isSome
  nblocks : st'.nblocks = st.nblocks

theorem Serves.trans {st₁ : FsState} (h : Serves st st₁) (h' : Serves st₁ st') : Serves st st' :=
  ⟨h.asked.trans h'.asked, fun c hc => h'.mapped c (h.mapped c hc), h'.nblocks.trans h.nblocks⟩

theorem Serves.bitmapBit (h : Serves st st') : st'.bitmapBit d ↔ st.bitmapBit d := by
  unfold FsState.bitmapBit
  rw [h.nblocks]

theorem Serves.notBitmap (h : Serves st st') : st'.notBitmap c ↔ st.notBitmap c := by
  unfold FsState.notBitmap
  rw [h.nblocks]

/-- The functions of a server that is ready. They stop only when the kernel has no page. -/
def readyContract : Contract FsState Unit Stop where
  inv st _ := Ready st
  moves st _ st' _ := Serves st st'
  allowed st e := e = .kernelPanic ∧ ∃ n, st.mem n = false
  refl st _ := ⟨.refl st, fun _ hc => hc, rfl⟩
  trans h h' := h.trans h'
  back h h' := ⟨h'.1, h.asked.back h'.2⟩

theorem Serves.runs {α : Type} {x : FsM α} {a : α} {Q : α → FsState → Unit → Prop} (hs : Serves st st')
    (h' : Ready st') (hrun : x st = .ok (a, st')) (hQ : Q a st' ()) : Runs readyContract x st () Q := by
  unfold Runs
  rw [hrun]
  exact ⟨(), h', hs, hQ⟩

/-- The contents stay, and with them the bitmap. -/
structure SameContents (st st' : FsState) : Prop where
  word : ∀ c j, st'.word c j = st.word c j
  bits : ∀ d, st.bitmapBit d → (st'.bits.isSet d ↔ st.bits.isSet d)

theorem SameContents.of_contents (h : Ready st) (hs : Serves st st') (hcontents : st'.contents = st.contents) :
    SameContents st st' := by
  refine ⟨fun c j => by unfold FsState.word; rw [hcontents], fun d hd => ?_⟩
  obtain ⟨e, he, heq⟩ := hd
  have hpage : (st.cache (bitmapBlock (d >>> 5))).isSome := by
    rw [bitmapBlock_shift, heq]
    exact h.bitmapPage e he
  unfold Bitmap.isSet FsState.bits
  rw [← contents_mapped hpage, ← contents_mapped (hs.mapped _ hpage), hcontents]

theorem Ready.readBlock_runs (h : Ready st) (hlt : b < st.nblocks) (hused : ¬ st.isFree b) :
    Runs readyContract (readBlock b) st () fun _ st' _ => (st'.cache b).isSome ∧ SameContents st st' := by
  rcases readBlock_run h hlt hused with ⟨isnew, st', hrun, hasked⟩ | ⟨hrun, hmem⟩
  · obtain ⟨hready, hc, hcontents⟩ := readBlock_contents h hrun
    have hs : Serves st st' := by
      obtain ⟨-, -, ⟨-, rfl⟩ | ⟨hnone, mem, rfl⟩⟩ := readBlock_ok h hrun
      · exact ⟨hasked, fun _ hsome => hsome, rfl⟩
      · exact ⟨hasked, setPage_isSome _ b _, nblocks_setPage h hnone _⟩
    exact hs.runs hready hrun ⟨hc, .of_contents h hs hcontents⟩
  · exact .of_error hrun ⟨rfl, hmem⟩

theorem SameContents.refl (st : FsState) : SameContents st st := ⟨fun _ _ => rfl, fun _ _ => Iff.rfl⟩

/-- `file_block_walk` finds the slot, if there is one. -/
theorem Ready.fileBlockWalk_runs (h : Ready st) (hb : (st.cache b).isSome) (hlt : b < DISKMAX / BY2BLK)
    (hi : i + 64 ≤ 1024) (htable : st.word b (i + W_INDIRECT) ≠ 0 →
      (st.word b (i + W_INDIRECT)).toNat < st.nblocks ∧ ¬ st.isFree (st.word b (i + W_INDIRECT)).toNat) (n : Nat) :
    Runs readyContract (fileBlockWalk (addr b i) n false) st () fun r st' _ => SameContents st st' ∧
      match st.slot b i n with
      | some (c, j) => r = .ok (addr c j) ∧ (st'.cache c).isSome
      | none => ∃ e, r = .error e := by
  unfold fileBlockWalk FsState.slot
  by_cases hn : n < NDIRECT
  · rw [if_pos hn, if_pos hn]
    exact .of_same rfl h ⟨.refl st, congrArg Except.ok (addr_direct b i n), hb⟩
  · rw [if_neg hn, if_neg hn]
    by_cases hn' : n < NINDIRECT
    · have hload := loadWord_run hlt hb (show i + W_INDIRECT < 1024 by simp only [W_INDIRECT]; omega)
      rw [if_pos hn', addr_indirect]
      refine .bind_same (needBlock_eq hload) ?_
      by_cases hzero : st.word b (i + W_INDIRECT) = 0
      · rw [if_pos hzero, if_pos (by decide), if_neg fun hc => hc.2 hzero]
        exact .of_same rfl h ⟨.refl st, _, rfl⟩
      · obtain ⟨htlt, hused⟩ := htable hzero
        rw [if_neg hzero, if_neg (by decide), if_pos ⟨hn', hzero⟩]
        refine .bind_same hload ((h.readBlock_runs htlt hused).bind ?_)
        rintro _ st₁ _ h₁ _ ⟨hc, hsame⟩
        exact .of_same rfl h₁ ⟨hsame, rfl, hc⟩
    · rw [if_neg hn', if_neg fun hc => hn' hc.1]
      exact .of_same rfl h ⟨.refl st, _, rfl⟩

/-- The slots from `lo` on, `m` of them, are clear, and what they named is free. -/
structure SlotsClear (st : FsState) (b i lo m : Nat) (st' : FsState) : Prop where
  kept : ∀ c j, j < 1024 → st.notBitmap c → (∀ n, lo ≤ n → n < lo + m → st.slot b i n ≠ some (c, j)) →
    st'.word c j = st.word c j
  zero : ∀ n c j, lo ≤ n → n < lo + m → st.slot b i n = some (c, j) → st'.word c j = 0
  bits : ∀ d, st.bitmapBit d →
    (st'.bits.isSet d ↔ st.bits.isSet d ∨ ∃ n, lo ≤ n ∧ n < lo + m ∧ st.Names b i n d)

/-- Nothing was there. -/
theorem SlotsClear.same {lo : Nat} {st₁ : FsState} (hclear : SlotsClear st b i lo m st') (hs : Serves st st')
    (hsame : SameContents st' st₁)
    (hnone : ∀ c j, st.slot b i (lo + m) = some (c, j) → st₁.word c j = 0 ∧ st.word c j = 0) :
    SlotsClear st b i lo (m + 1) st₁ := by
  refine ⟨fun c j hj hc' hslots => ?_, fun n c j hlo hhi hsn => ?_, fun d hd => ?_⟩
  · rw [hsame.word]
    exact hclear.kept c j hj hc' fun n hlo hhi => hslots n hlo (by omega)
  · by_cases hn : n = lo + m
    · exact (hnone c j (by rw [← hn]; exact hsn)).1
    · rw [hsame.word]
      exact hclear.zero n c j hlo (by omega) hsn
  · rw [hsame.bits d (hs.bitmapBit.mpr hd), hclear.bits d hd]
    refine or_congr_right ⟨fun ⟨n, hlo, hhi, hname⟩ => ⟨n, hlo, by omega, hname⟩, fun ⟨n, hlo, hhi, hname⟩ => ?_⟩
    have hn : n ≠ lo + m := by
      rintro rfl
      obtain ⟨c, j, hsn, hne, -⟩ := hname
      exact hne (hnone c j hsn).2
    exact ⟨n, hlo, by omega, hname⟩

namespace Unshared

variable (h : Unshared st) (ho : OffSystem st) (hf : InTree st b i)
include h ho hf

end Unshared

-- ---------------------------------------------------------------------------
-- file_truncate
-- ---------------------------------------------------------------------------

namespace Unshared

variable (h : Unshared st) (ho : OffSystem st) (hf : InTree st b i)
include h ho hf

end Unshared

end Mos.Fs
