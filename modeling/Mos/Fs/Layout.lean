import Mos.Lib.Contract
import Mos.Fs.Fresh

/-!
# MOS on RISC-V — what the blocks of a file system hold

A block is of the system (the super block, the bitmap), holds the files of a
directory, the data of a regular file, or the block numbers of a table
(`f_indirect`). Which it is, nothing on the disk says: it follows from the pointers
to the block, and so does what the words in it are. `Layout` is the invariant: with
the uses `use`, each pointer names a block of the use that it should have, no two
name the same, and what is named is in use and below `s_nblocks`.

A `struct File` in memory is named by the block and the word where it begins. The
uses change when a pointer to a new block is stored (`Layout.attach`) and when a
block is freed and its pointer cleared (`Layout.detach`). A block that is freed may
stay in the cache: a cached block of data or of a table may become free, and data again,
while one with files in it stays what it is (`Keeps`). `Moves` says what stays for the
files that the server holds a pointer to.
-/

namespace Mos.Fs

open Mos.Lib Mos.Kern

variable {st st' : FsState} {b c i j : Nat}

-- ---------------------------------------------------------------------------
-- Words and addresses
-- ---------------------------------------------------------------------------

/-- Word `i` of block `b`. -/
def FsState.word (st : FsState) (b i : Nat) : BitVec 32 := st.contents b (Fin.ofNat 1024 i)

/-- The address of the word. -/
def addr (b i : Nat) : Nat := diskaddr b + 4 * i

/-- The fields of a `struct File`, in words. -/
def W_SIZE : Nat := 32
def W_TYPE : Nat := 33
def W_DIRECT : Nat := 34
def W_INDIRECT : Nat := 44
def W_DIR : Nat := 45

theorem addr_add (b i j : Nat) : addr b i + 4 * j = addr b (i + j) := by
  unfold addr
  omega

/-- An address of the disk map names a word of a block. -/
theorem locate_addr (hb : b < DISKMAX / BY2BLK) (hi : i < 1024) :
    locate (addr b i) = .ok (b, Fin.ofNat 1024 i) := by
  simp only [DISKMAX, BY2BLK, BY2PG] at hb
  have hlow : ¬ addr b i < UTEMP := by
    simp only [addr, diskaddr, DISKMAP, BY2BLK, BY2PG, show UTEMP = 0x3fe000 by decide]
    omega
  have hmap : DISKMAP ≤ addr b i ∧ addr b i < DISKMAP + DISKMAX ∧ addr b i % 4 = 0 := by
    simp only [addr, diskaddr, DISKMAP, DISKMAX, BY2BLK, BY2PG]
    omega
  have hblock : (addr b i - DISKMAP) / BY2BLK = b := by
    simp only [addr, diskaddr, DISKMAP, BY2BLK, BY2PG]
    omega
  have hword : Fin.ofNat 1024 ((addr b i - DISKMAP) / 4) = Fin.ofNat 1024 i := by
    apply Fin.ext
    show (addr b i - DISKMAP) / 4 % 1024 = i % 1024
    simp only [addr, diskaddr, DISKMAP, BY2BLK, BY2PG]
    omega
  unfold locate
  rw [if_neg hlow, if_pos hmap, hblock, hword]

theorem addr_inj {b' i' : Nat} (hi : i < 1024) (hi' : i' < 1024) (h : addr b i = addr b' i') :
    b = b' ∧ i = i' := by
  simp only [addr, diskaddr, BY2BLK, BY2PG] at h
  omega

theorem ofNat_inj (hi : i < 1024) (hj : j < 1024) (h : Fin.ofNat 1024 i = Fin.ofNat 1024 j) : i = j := by
  have hval : i % 1024 = j % 1024 := congrArg Fin.val h
  omega

theorem word_storeWord (hb : (st.cache b).isSome) (hi : i < 1024) (hj : j < 1024) (w : BitVec 32) :
    (st.storeWord b (Fin.ofNat 1024 i) w).word c j = if c = b ∧ j = i then w else st.word c j := by
  unfold FsState.word
  rw [storeWord_contents hb]
  by_cases hc : c = b
  · rw [if_pos hc]
    by_cases hji : j = i
    · rw [if_pos ⟨hc, hji⟩, hji, Function.update_self]
    · rw [if_neg fun h => hji h.2, Function.update_of_ne fun h => hji (ofNat_inj hj hi h), hc]
  · rw [if_neg hc, if_neg fun h => hc h.1]

-- ---------------------------------------------------------------------------
-- Uses
-- ---------------------------------------------------------------------------

inductive Use where
  | system
  | dir
  | data
  | table (ofDir : Bool)
  deriving DecidableEq, Repr

abbrev Uses := Nat → Option Use

/-- What the blocks of a file hold. -/
def Use.content (isDir : Bool) : Use := if isDir then .dir else .data

/-- A `struct File` begins at word `i` of block `b`: `s_root`, or one of a directory. -/
inductive FileSlot (use : Uses) : Nat → Nat → Prop where
  | root : FileSlot use 1 2
  | entry {b j : Nat} (hb : use b = some .dir) (hj : j < FILE2BLK) : FileSlot use b (64 * j)

/-- `f_type == FTYPE_DIR`. -/
def FsState.isDir (st : FsState) (b i : Nat) : Bool := decide (st.word b (i + W_TYPE) = FTYPE_DIR)

/-- Word `i` of block `b` is a block number, of a block of the given use. -/
inductive Ptr (st : FsState) (use : Uses) : Nat → Nat → Use → Prop where
  | direct {b i k : Nat} (hf : FileSlot use b i) (hk : k < NDIRECT) :
      Ptr st use b (i + W_DIRECT + k) (.content (st.isDir b i))
  | table {b i : Nat} (hf : FileSlot use b i) : Ptr st use b (i + W_INDIRECT) (.table (st.isDir b i))
  | entry {b i : Nat} {d : Bool} (hb : use b = some (.table d)) (hlo : NDIRECT ≤ i) (hhi : i < NINDIRECT) :
      Ptr st use b i (.content d)

/-- The words that `Layout` is about: the types and pointers of files, and tables. -/
def Tracked (use : Uses) (b j : Nat) : Prop :=
  (∃ i, FileSlot use b i ∧ i + W_TYPE ≤ j ∧ j ≤ i + W_INDIRECT) ∨ ∃ d, use b = some (.table d) ∧ j < 1024

structure Layout (st : FsState) (use : Uses) : Prop where
  ready : Ready st
  size : st.nblocks ≤ DISKMAX / BY2BLK
  inUse : ∀ b u, use b = some u → b < st.nblocks ∧ ¬ st.isFree b
  superUse : use 1 = some .system
  bitmapUse : ∀ c < st.nblocks, use (c / BIT2BLK + 2) = some .system
  names : ∀ b i u, Ptr st use b i u → st.word b i = 0 ∨ use (st.word b i).toNat = some u
  once : ∀ b i u b' i' u', Ptr st use b i u → Ptr st use b' i' u' → st.word b i ≠ 0 →
    st.word b i = st.word b' i' → b = b' ∧ i = i'
  rootDir : st.word 1 (2 + W_DIR) = 0

/-- A `struct File` in the cache. -/
structure FileAt (st : FsState) (use : Uses) (b i : Nat) : Prop where
  cached : (st.cache b).isSome
  slot : FileSlot use b i

/-- The file at address `f`, whose `f_dir` is null or a file again. -/
def Linked (st : FsState) (use : Uses) (f : Nat) : Prop :=
  ∃ b i, f = addr b i ∧ FileAt st use b i ∧ ((st.word b (i + W_DIR)).toNat = 0 ∨
    ∃ b' i', (st.word b (i + W_DIR)).toNat = addr b' i' ∧ FileAt st use b' i')

/-- The kernel has been asked for some pages. -/
def Asked (st st' : FsState) : Prop := ∃ k, ∀ n, st'.mem n = st.mem (n + k)

/-- No file lies in the block, and no block numbers. -/
def Loose (u : Option Use) : Prop := u = none ∨ u = some .data

/-- The use of a cached block, before and after. -/
def Keeps (u u' : Option Use) : Prop := u' = u ∨ (u ≠ some .dir ∧ u ≠ some .system ∧ Loose u')

/-- What a function may do to the files that are cached. -/
structure Moves (st : FsState) (use : Uses) (st' : FsState) (use' : Uses) : Prop where
  asked : Asked st st'
  page : ∀ b, (st.cache b).isSome → (st'.cache b).isSome ∧ Keeps (use b) (use' b)
  type : ∀ b i, FileAt st use b i → st'.isDir b i = st.isDir b i
  linked : ∀ f, Linked st use f → Linked st' use' f

-- ---------------------------------------------------------------------------
-- Files and pointers
-- ---------------------------------------------------------------------------

variable {use use' : Uses} {u : Use}

namespace Keeps

variable {o o' o'' : Option Use}

theorem refl (o : Option Use) : Keeps o o := Or.inl rfl

theorem trans (h : Keeps o o') (h' : Keeps o' o'') : Keeps o o'' := by
  rcases h' with rfl | ⟨hdir, hsystem, hloose⟩
  · exact h
  · rcases h with rfl | ⟨hdir', hsystem', -⟩
    · exact Or.inr ⟨hdir, hsystem, hloose⟩
    · exact Or.inr ⟨hdir', hsystem', hloose⟩

theorem dir (h : Keeps o o') (ho : o = some .dir) : o' = some .dir := by
  rcases h with rfl | ⟨hne, -⟩
  · exact ho
  · exact absurd ho hne

theorem system (h : Keeps o o') (ho : o = some .system) : o' = some .system := by
  rcases h with rfl | ⟨-, hne, -⟩
  · exact ho
  · exact absurd ho hne

theorem loose (h : Keeps o o') (ho : Loose o) : Loose o' := by
  rcases h with rfl | ⟨-, -, hloose⟩
  · exact ho
  · exact hloose

end Keeps

namespace FileSlot

/-- A file lies in its block as a whole. -/
theorem lt (h : FileSlot use b i) : i + 64 ≤ 1024 := by
  cases h with
  | root => omega
  | entry hb hj =>
    simp only [FILE2BLK, BY2BLK, BY2PG, BY2FILE] at hj
    omega

theorem congr (h : FileSlot use b i) (hb : use' b = use b) : FileSlot use' b i := by
  cases h with
  | root => exact .root
  | entry hdir hj => exact .entry (hb.trans hdir) hj

theorem keeps (h : FileSlot use b i) (hb : Keeps (use b) (use' b)) : FileSlot use' b i := by
  cases h with
  | root => exact .root
  | entry hdir hj => exact .entry (hb.dir hdir) hj

/-- Two files of a block are the same or apart. -/
theorem disjoint (hsuper : use 1 = some .system) (h : FileSlot use b i) (h' : FileSlot use b j)
    (hlo : i < j + 64) (hhi : j < i + 64) : i = j := by
  cases h with
  | root =>
    cases h' with
    | root => rfl
    | entry hdir =>
      rw [hsuper] at hdir
      cases hdir
  | entry hdir =>
    cases h' with
    | root =>
      rw [hsuper] at hdir
      cases hdir
    | entry => omega

theorem notTable (hsuper : use 1 = some .system) (h : FileSlot use b i) (d : Bool) :
    use b ≠ some (.table d) := by
  intro htable
  cases h with
  | root =>
    rw [hsuper] at htable
    cases htable
  | entry hdir =>
    rw [hdir] at htable
    cases htable

end FileSlot

theorem Use.content_inj {d d' : Bool} (h : Use.content d = .content d') : d = d' := by
  revert d d'
  decide

theorem Use.content_ne (d : Bool) : Use.content d ≠ .system ∧ ∀ d', Use.content d ≠ .table d' := by
  cases d
  · exact ⟨nofun, nofun⟩
  · exact ⟨nofun, nofun⟩

namespace Ptr

theorem lt (h : Ptr st use b i u) : i < 1024 := by
  cases h with
  | direct hf hk =>
    have hlt := hf.lt
    simp only [W_DIRECT, NDIRECT] at hk ⊢
    omega
  | table hf =>
    have hlt := hf.lt
    simp only [W_INDIRECT]
    omega
  | entry hb hlo hhi => exact hhi

theorem tracked (h : Ptr st use b i u) : Tracked use b i := by
  cases h with
  | @direct i k hf hk =>
    refine Or.inl ⟨i, hf, ?_⟩
    simp only [NDIRECT] at hk
    simp only [W_TYPE, W_DIRECT, W_INDIRECT]
    omega
  | @table i hf =>
    refine Or.inl ⟨i, hf, ?_⟩
    simp only [W_TYPE, W_INDIRECT]
    omega
  | entry hb hlo hhi => exact Or.inr ⟨_, hb, hhi⟩

theorem notLoose (h : Ptr st use b i u) (hb : b ≠ 1) : ¬ Loose (use b) := by
  have hfile : ∀ {i}, FileSlot use b i → ¬ Loose (use b) := by
    intro i hf
    cases hf with
    | root => exact absurd rfl hb
    | entry hdir =>
      rw [hdir]
      rintro (hc | hc)
      · cases hc
      · cases hc
  cases h with
  | direct hf => exact hfile hf
  | table hf => exact hfile hf
  | entry htable =>
    rw [htable]
    rintro (hc | hc)
    · cases hc
    · cases hc

theorem ne_system (h : Ptr st use b i u) : u ≠ .system := by
  cases h with
  | direct => exact (Use.content_ne _).1
  | table => exact nofun
  | entry => exact (Use.content_ne _).1

/-- A field of a file that is none of the slots of block numbers. -/
theorem ne_field (hsuper : use 1 = some .system) (h : Ptr st use b j u) (hf : FileSlot use b i) {k : Nat}
    (hk : k < 64) (hfield : k < W_DIRECT ∨ W_INDIRECT < k) : j ≠ i + k := by
  intro heq
  simp only [W_DIRECT, W_INDIRECT] at hfield
  cases h with
  | @direct i' n hf' hn =>
    simp only [W_DIRECT, NDIRECT] at heq hn
    obtain rfl : i' = i := hf'.disjoint hsuper hf (by omega) (by omega)
    omega
  | @table i' hf' =>
    simp only [W_INDIRECT] at heq
    obtain rfl : i' = i := hf'.disjoint hsuper hf (by omega) (by omega)
    omega
  | entry hb => exact hf.notTable hsuper _ hb

/-- The type of a file is no pointer. -/
theorem ne_type (hsuper : use 1 = some .system) (h : Ptr st use b j u) (hf : FileSlot use b i) :
    j ≠ i + W_TYPE :=
  h.ne_field hsuper hf (by decide) (by decide)

/-- A word is a pointer of one kind. -/
theorem unique {u' : Use} (hsuper : use 1 = some .system) (h : Ptr st use b j u)
    (h' : Ptr st use b j u') : u = u' := by
  cases h with
  | @direct i k hf hk =>
    generalize hj : i + W_DIRECT + k = j at h'
    cases h' with
    | @direct i' k' hf' hk' =>
      simp only [W_DIRECT, NDIRECT] at hj hk hk'
      obtain rfl : i = i' := hf.disjoint hsuper hf' (by omega) (by omega)
      rfl
    | @table i' hf' =>
      simp only [W_DIRECT, W_INDIRECT, NDIRECT] at hj hk
      obtain rfl : i = i' := hf.disjoint hsuper hf' (by omega) (by omega)
      omega
    | entry hb => exact absurd hb (hf.notTable hsuper _)
  | @table i hf =>
    generalize hj : i + W_INDIRECT = j at h'
    cases h' with
    | @direct i' k' hf' hk' =>
      simp only [W_DIRECT, W_INDIRECT, NDIRECT] at hj hk'
      obtain rfl : i = i' := hf.disjoint hsuper hf' (by omega) (by omega)
      omega
    | @table i' hf' =>
      simp only [W_INDIRECT] at hj
      obtain rfl : i = i' := hf.disjoint hsuper hf' (by omega) (by omega)
      rfl
    | entry hb => exact absurd hb (hf.notTable hsuper _)
  | entry hb hlo hhi =>
    cases h' with
    | direct hf => exact absurd hb (hf.notTable hsuper _)
    | table hf => exact absurd hb (hf.notTable hsuper _)
    | entry hb' =>
      rw [hb] at hb'
      cases hb'
      rfl

end Ptr

-- ---------------------------------------------------------------------------
-- Changes
-- ---------------------------------------------------------------------------

/-- The type of a file is tracked. -/
theorem isDir_congr (hword : ∀ b j, Tracked use b j → st'.word b j = st.word b j)
    (h : FileSlot use b i) : st'.isDir b i = st.isDir b i := by
  unfold FsState.isDir
  rw [hword b (i + W_TYPE) (Or.inl ⟨i, h, Nat.le_refl _, by simp only [W_TYPE, W_INDIRECT]; omega⟩)]

namespace Layout

theorem lt (h : Layout st use) (hb : use b = some u) : b < DISKMAX / BY2BLK :=
  Nat.lt_of_lt_of_le (h.inUse b u hb).1 h.size

/-- A file, and its pointers, lie in a block with a use. -/
theorem slotUse (h : Layout st use) (hf : FileSlot use b i) : ∃ u, use b = some u := by
  cases hf with
  | root => exact ⟨_, h.superUse⟩
  | entry hb => exact ⟨_, hb⟩

theorem ptrUse (h : Layout st use) (hp : Ptr st use b i u) : ∃ v, use b = some v := by
  cases hp with
  | direct hf => exact h.slotUse hf
  | table hf => exact h.slotUse hf
  | entry hb => exact ⟨_, hb⟩

/-- A free block has no use. -/
theorem unused (h : Layout st use) (hc : st.isFree c) : use c = none := by
  cases hu : use c with
  | none => rfl
  | some u => exact absurd hc (h.inUse c u hu).2

/-- A block number of the file system. -/
theorem ptrNamed (h : Layout st use) (hp : Ptr st use b i u) (hne : st.word b i ≠ 0) :
    use (st.word b i).toNat = some u :=
  (h.names b i u hp).resolve_left hne

/-- The bitmap is of the system. -/
theorem notBitmap (h : Layout st use) (hb : b = 1 ∨ use b ≠ some .system) (hc : c < st.nblocks) :
    b ≠ c / BIT2BLK + 2 := by
  rintro heq
  rcases hb with h1 | hne
  · simp only [BIT2BLK, BY2BLK, BY2PG] at heq
    omega
  · rw [heq] at hne
    exact hne (h.bitmapUse c hc)

/-- Neither `s_nblocks` nor a word of the bitmap. -/
theorem plain (h : Layout st use) (hcached : (st.cache b).isSome) (hj : j < 1024)
    (hb : b = 1 ∧ 2 ≤ j ∨ use b ≠ some .system) : Plain st b (Fin.ofNat 1024 j) where
  cached := hcached
  super h1 heq := by
    rcases hb with ⟨-, hj2⟩ | hne
    · have hone : j = 1 := ofNat_inj hj (by omega) heq
      omega
    · rw [h1] at hne
      exact hne h.superUse
  bitmap c hc := h.notBitmap (hb.imp_left fun hsuper => hsuper.1) hc

theorem plainFile (h : Layout st use) (hf : FileAt st use b i) {k : Nat} (hk : k < 64) :
    Plain st b (Fin.ofNat 1024 (i + k)) := by
  have hlt := hf.slot.lt
  refine h.plain hf.cached (by omega) ?_
  cases hf.slot with
  | root => exact Or.inl ⟨rfl, by omega⟩
  | entry hb => exact Or.inr (by rw [hb]; nofun)

theorem plainPtr (h : Layout st use) (hp : Ptr st use b i u) (hcached : (st.cache b).isSome) :
    Plain st b (Fin.ofNat 1024 i) := by
  refine h.plain hcached hp.lt ?_
  cases hp with
  | direct hf =>
    cases hf with
    | root => exact Or.inl ⟨rfl, by simp only [W_DIRECT]; omega⟩
    | entry hb => exact Or.inr (by rw [hb]; nofun)
  | table hf =>
    cases hf with
    | root => exact Or.inl ⟨rfl, by simp only [W_INDIRECT]; omega⟩
    | entry hb => exact Or.inr (by rw [hb]; nofun)
  | entry hb => exact Or.inr (by rw [hb]; nofun)

/-- The same words where it matters, and no more free blocks. -/
theorem congr (h : Layout st use) (hready : Ready st') (hn : st'.nblocks = st.nblocks)
    (hfree : ∀ c, st'.isFree c → st.isFree c)
    (hword : ∀ b j, Tracked use b j → st'.word b j = st.word b j)
    (hroot : st'.word 1 (2 + W_DIR) = 0) : Layout st' use := by
  have hptr : ∀ {b i u}, Ptr st' use b i u → Ptr st use b i u := by
    intro b i u hp
    cases hp with
    | direct hf hk =>
      rw [isDir_congr hword hf]
      exact .direct hf hk
    | table hf =>
      rw [isDir_congr hword hf]
      exact .table hf
    | entry hb hlo hhi => exact .entry hb hlo hhi
  have hsame : ∀ {b i u}, Ptr st' use b i u → st'.word b i = st.word b i :=
    fun hp => hword _ _ (hptr hp).tracked
  exact
    { ready := hready
      size := by rw [hn]; exact h.size
      inUse := fun b u hb => by
        obtain ⟨hlt, hused⟩ := h.inUse b u hb
        exact ⟨by rw [hn]; exact hlt, fun hc => hused (hfree b hc)⟩
      superUse := h.superUse
      bitmapUse := fun c hc => h.bitmapUse c (by rw [← hn]; exact hc)
      names := fun b i u hp => by
        rw [hsame hp]
        exact h.names b i u (hptr hp)
      once := fun b i u b' i' u' hp hp' hne heq => by
        rw [hsame hp] at hne heq
        rw [hsame hp'] at heq
        exact h.once b i u b' i' u' (hptr hp) (hptr hp') hne heq
      rootDir := hroot }

/-- A pointer that is null names a new block, of zeros but for data. -/
theorem attach (h : Layout st use) (hp : Ptr st use b i u) (hzero : st.word b i = 0) (hc : st.isFree c)
    (hready : Ready st') (hn : st'.nblocks = st.nblocks)
    (hfree : ∀ d, st'.isFree d ↔ st.isFree d ∧ d ≠ c) (hnew : u ≠ .data → ∀ j, st'.word c j = 0)
    (hslot : st'.word b i = BitVec.ofNat 32 c)
    (hword : ∀ d j, Tracked use d j → ¬ (d = b ∧ j = i) → st'.word d j = st.word d j)
    (hroot : st'.word 1 (2 + W_DIR) = 0) : Layout st' (Function.update use c (some u)) := by
  have hnone : use c = none := h.unused hc
  have hkeep : ∀ {d v}, use d = some v → d ≠ c := by
    rintro d v hd rfl
    rw [hnone] at hd
    cases hd
  have huse : ∀ {d}, d ≠ c → Function.update use c (some u) d = use d := fun hd => Function.update_of_ne hd ..
  have hlt : c < 2 ^ 32 := Nat.lt_trans hc.1 (st.words 1 1).isLt
  have hnum : (st'.word b i).toNat = c := by
    rw [hslot, BitVec.toNat_ofNat, Nat.mod_eq_of_lt hlt]
  have hdir : ∀ {d k}, FileSlot use d k → st'.isDir d k = st.isDir d k := by
    intro d k hf
    unfold FsState.isDir
    rw [hword d (k + W_TYPE) (Or.inl ⟨k, hf, Nat.le_refl _, by simp only [W_TYPE, W_INDIRECT]; omega⟩)]
    rintro ⟨rfl, hki⟩
    exact hp.ne_type h.superUse hf hki.symm
  have hfile : ∀ {d k}, FileSlot (Function.update use c (some u)) d k → d ≠ c → FileSlot use d k :=
    fun hf hd => hf.congr (huse hd).symm
  -- the pointers: those there were, and the zeros of the new block
  have hptr : ∀ {d j v}, Ptr st' (Function.update use c (some u)) d j v →
      st'.word d j = 0 ∨ (d ≠ c ∧ Ptr st use d j v) := by
    intro d j v hp'
    by_cases hd : d = c
    · refine Or.inl ?_
      rw [hd]
      refine hnew ?_ j
      rintro rfl
      refine hp'.notLoose ?_ (by rw [hd, Function.update_self]; exact Or.inr rfl)
      rw [hd]
      exact (hkeep h.superUse).symm
    · refine Or.inr ⟨hd, ?_⟩
      cases hp' with
      | direct hf hk =>
        rw [hdir (hfile hf hd)]
        exact .direct (hfile hf hd) hk
      | table hf =>
        rw [hdir (hfile hf hd)]
        exact .table (hfile hf hd)
      | entry hb hlo hhi =>
        rw [huse hd] at hb
        exact .entry hb hlo hhi
  -- an old pointer does not name the new block
  have hold : ∀ {d j v}, Ptr st use d j v → ¬ (d = b ∧ j = i) →
      st'.word d j = st.word d j ∧ (st.word d j ≠ 0 → (st.word d j).toNat ≠ c) := by
    intro d j v hp' hne
    exact ⟨hword d j hp'.tracked hne, fun hw => hkeep (h.ptrNamed hp' hw)⟩
  exact
    { ready := hready
      size := by rw [hn]; exact h.size
      inUse := fun d v hd => by
        rw [hn, hfree]
        by_cases hdc : d = c
        · subst hdc
          exact ⟨hc.1, fun hf => hf.2 rfl⟩
        · rw [huse hdc] at hd
          obtain ⟨hdlt, hused⟩ := h.inUse d v hd
          exact ⟨hdlt, fun hf => hused hf.1⟩
      superUse := (huse (hkeep h.superUse)).trans h.superUse
      bitmapUse := fun d hd => by
        have hold := h.bitmapUse d (by rw [← hn]; exact hd)
        exact (huse (hkeep hold)).trans hold
      names := fun d j v hp' => by
        rcases hptr hp' with hz | ⟨hd, hp'⟩
        · exact Or.inl hz
        · by_cases hbi : d = b ∧ j = i
          · obtain ⟨rfl, rfl⟩ := hbi
            rw [hnum, Function.update_self, hp.unique h.superUse hp']
            exact Or.inr rfl
          · obtain ⟨hsame, hnc⟩ := hold hp' hbi
            rw [hsame]
            by_cases hw : st.word d j = 0
            · exact Or.inl hw
            · rw [huse (hnc hw)]
              exact Or.inr (h.ptrNamed hp' hw)
      once := fun d j v d' j' v' hp₁ hp₂ hne heq => by
        rcases hptr hp₁ with hz | ⟨-, hp₁⟩
        · exact absurd hz hne
        rcases hptr hp₂ with hz | ⟨-, hp₂⟩
        · rw [hz] at heq
          exact absurd heq hne
        by_cases hbi : d = b ∧ j = i
        · by_cases hbi' : d' = b ∧ j' = i
          · exact ⟨hbi.1.trans hbi'.1.symm, hbi.2.trans hbi'.2.symm⟩
          · obtain ⟨hsame, hnc⟩ := hold hp₂ hbi'
            obtain ⟨rfl, rfl⟩ := hbi
            rw [hsame] at heq
            rw [heq] at hnum hne
            exact absurd hnum (hnc hne)
        · obtain ⟨hsame, hnc⟩ := hold hp₁ hbi
          rw [hsame] at heq hne
          by_cases hbi' : d' = b ∧ j' = i
          · obtain ⟨rfl, rfl⟩ := hbi'
            rw [← heq] at hnum
            exact absurd hnum (hnc hne)
          · rw [(hold hp₂ hbi').1] at heq
            exact h.once d j v d' j' v' hp₁ hp₂ hne heq
      rootDir := hroot }

/-- A pointer is cleared, and the block it named is free. -/
theorem detach (h : Layout st use) (hp : Ptr st use b i u) (hne : st.word b i ≠ 0)
    (hc : (st.word b i).toNat = c) (hready : Ready st') (hn : st'.nblocks = st.nblocks)
    (hfree : ∀ d, st'.isFree d ↔ st.isFree d ∨ d = c) (hslot : st'.word b i = 0)
    (hword : ∀ d j, Tracked use d j → ¬ (d = b ∧ j = i) → st'.word d j = st.word d j)
    (hroot : st'.word 1 (2 + W_DIR) = 0) : Layout st' (Function.update use c none) := by
  have huse : ∀ {d}, d ≠ c → Function.update use c none d = use d := fun hd => Function.update_of_ne hd ..
  have hsub : ∀ {d v}, Function.update use c none d = some v → d ≠ c ∧ use d = some v := by
    intro d v hd
    by_cases hdc : d = c
    · rw [hdc, Function.update_self] at hd
      cases hd
    · exact ⟨hdc, (huse hdc).symm.trans hd⟩
  have hsystem : ∀ {d}, use d = some .system → d ≠ c := by
    rintro d hd rfl
    have hnamed := h.ptrNamed hp hne
    rw [hc, hd] at hnamed
    exact hp.ne_system (Option.some.inj hnamed).symm
  have hfile : ∀ {d k}, FileSlot (Function.update use c none) d k → FileSlot use d k := by
    intro d k hf
    cases hf with
    | root => exact .root
    | entry hb hj => exact .entry (hsub hb).2 hj
  have hdir : ∀ {d k}, FileSlot use d k → st'.isDir d k = st.isDir d k := by
    intro d k hf
    unfold FsState.isDir
    rw [hword d (k + W_TYPE) (Or.inl ⟨k, hf, Nat.le_refl _, by simp only [W_TYPE, W_INDIRECT]; omega⟩)]
    rintro ⟨rfl, hki⟩
    exact hp.ne_type h.superUse hf hki.symm
  have hptr : ∀ {d j v}, Ptr st' (Function.update use c none) d j v → Ptr st use d j v := by
    intro d j v hp'
    cases hp' with
    | direct hf hk =>
      rw [hdir (hfile hf)]
      exact .direct (hfile hf) hk
    | table hf =>
      rw [hdir (hfile hf)]
      exact .table (hfile hf)
    | entry hb hlo hhi => exact .entry (hsub hb).2 hlo hhi
  -- the block had no other name
  have hother : ∀ {d j v}, Ptr st use d j v → st.word d j ≠ 0 → ¬ (d = b ∧ j = i) →
      (st.word d j).toNat ≠ c := by
    intro d j v hp' hw hbi heq
    have hsame : st.word d j = st.word b i := BitVec.eq_of_toNat_eq (heq.trans hc.symm)
    exact hbi (h.once d j v b i u hp' hp hw hsame)
  exact
    { ready := hready
      size := by rw [hn]; exact h.size
      inUse := fun d v hd => by
        obtain ⟨hdc, hd⟩ := hsub hd
        obtain ⟨hdlt, hused⟩ := h.inUse d v hd
        rw [hn, hfree]
        exact ⟨hdlt, fun hf => hf.elim hused hdc⟩
      superUse := (huse (hsystem h.superUse)).trans h.superUse
      bitmapUse := fun d hd => by
        have hold := h.bitmapUse d (by rw [← hn]; exact hd)
        exact (huse (hsystem hold)).trans hold
      names := fun d j v hp' => by
        have hp' := hptr hp'
        by_cases hbi : d = b ∧ j = i
        · obtain ⟨rfl, rfl⟩ := hbi
          exact Or.inl hslot
        · rw [hword d j hp'.tracked hbi]
          by_cases hw : st.word d j = 0
          · exact Or.inl hw
          · rw [huse (hother hp' hw hbi)]
            exact Or.inr (h.ptrNamed hp' hw)
      once := fun d j v d' j' v' hp₁ hp₂ hw heq => by
        have hp₁ := hptr hp₁
        have hp₂ := hptr hp₂
        by_cases hbi : d = b ∧ j = i
        · obtain ⟨rfl, rfl⟩ := hbi
          exact absurd hslot hw
        · rw [hword d j hp₁.tracked hbi] at heq hw
          by_cases hbi' : d' = b ∧ j' = i
          · obtain ⟨rfl, rfl⟩ := hbi'
            rw [hslot] at heq
            exact absurd heq hw
          · rw [hword d' j' hp₂.tracked hbi'] at heq
            exact h.once d j v d' j' v' hp₁ hp₂ hw heq
      rootDir := hroot }

end Layout

-- ---------------------------------------------------------------------------
-- What stays
-- ---------------------------------------------------------------------------

theorem FileAt.moves (h : FileAt st use b i) (hm : Moves st use st' use') : FileAt st' use' b i :=
  ⟨(hm.page b h.cached).1, h.slot.keeps (hm.page b h.cached).2⟩

theorem Linked.fileAt {f : Nat} (h : Linked st use f) : ∃ b i, f = addr b i ∧ FileAt st use b i := by
  obtain ⟨b, i, hf, hat, -⟩ := h
  exact ⟨b, i, hf, hat⟩

/-- A pointer in the cache stays one, if it is in a file or its table stays. -/
theorem Ptr.moves (h : Ptr st use b i u) (hb : (st.cache b).isSome) (hm : Moves st use st' use')
    (hgrows : ∀ d v, use d = some v → use' d = some v) : Ptr st' use' b i u := by
  have huse := (hm.page b hb).2
  cases h with
  | direct hf hk =>
    rw [← hm.type _ _ ⟨hb, hf⟩]
    exact .direct (hf.keeps huse) hk
  | table hf =>
    rw [← hm.type _ _ ⟨hb, hf⟩]
    exact .table (hf.keeps huse)
  | entry htable hlo hhi => exact .entry (hgrows _ _ htable) hlo hhi

namespace Asked

theorem refl (st : FsState) : Asked st st := ⟨0, fun _ => rfl⟩

theorem trans {st₁ st₂ : FsState} (h : Asked st st₁) (h' : Asked st₁ st₂) : Asked st st₂ := by
  obtain ⟨k, hk⟩ := h
  obtain ⟨k', hk'⟩ := h'
  exact ⟨k' + k, fun n => by rw [hk', hk, Nat.add_assoc]⟩

/-- A page that the kernel does not have. -/
theorem back (h : Asked st st') (hno : ∃ n, st'.mem n = false) : ∃ n, st.mem n = false := by
  obtain ⟨k, hk⟩ := h
  obtain ⟨n, hn⟩ := hno
  exact ⟨n + k, (hk n).symm.trans hn⟩

end Asked

namespace Moves

theorem refl (st : FsState) (use : Uses) : Moves st use st use :=
  ⟨.refl st, fun _ h => ⟨h, .refl _⟩, fun _ _ _ => rfl, fun _ h => h⟩

theorem trans {st₁ st₂ : FsState} {use₁ use₂ : Uses} (h : Moves st use st₁ use₁)
    (h' : Moves st₁ use₁ st₂ use₂) : Moves st use st₂ use₂ where
  asked := h.asked.trans h'.asked
  page b hb := by
    obtain ⟨hb₁, huse₁⟩ := h.page b hb
    obtain ⟨hb₂, huse₂⟩ := h'.page b hb₁
    exact ⟨hb₂, huse₁.trans huse₂⟩
  type b i hf := (h'.type b i (hf.moves h)).trans (h.type b i hf)
  linked f hf := h'.linked f (h.linked f hf)

/-- The types stay, and what `f_dir` names is null or a file. -/
theorem of_dir (hasked : Asked st st')
    (hpage : ∀ b, (st.cache b).isSome → (st'.cache b).isSome ∧ Keeps (use b) (use' b))
    (htype : ∀ b i, FileAt st use b i → st'.word b (i + W_TYPE) = st.word b (i + W_TYPE))
    (hdir : ∀ b i, FileAt st use b i → st'.word b (i + W_DIR) = st.word b (i + W_DIR) ∨
      ∃ b' i', (st'.word b (i + W_DIR)).toNat = addr b' i' ∧ FileAt st use b' i') :
    Moves st use st' use' where
  asked := hasked
  page := hpage
  type b i hf := by
    unfold FsState.isDir
    rw [htype b i hf]
  linked f := by
    have hat : ∀ {b i}, FileAt st use b i → FileAt st' use' b i :=
      fun hf => ⟨(hpage _ hf.cached).1, hf.slot.keeps (hpage _ hf.cached).2⟩
    rintro ⟨b, i, hf, hfile, hlink⟩
    refine ⟨b, i, hf, hat hfile, ?_⟩
    rcases hdir b i hfile with hsame | ⟨b', i', haddr, hfile'⟩
    · rw [hsame]
      exact hlink.imp_right fun ⟨b', i', haddr, hfile'⟩ => ⟨b', i', haddr, hat hfile'⟩
    · exact Or.inr ⟨b', i', haddr, hat hfile'⟩

/-- The types and `f_dir` stay. -/
theorem of_words (hasked : Asked st st')
    (hpage : ∀ b, (st.cache b).isSome → (st'.cache b).isSome ∧ Keeps (use b) (use' b))
    (hword : ∀ b i, FileAt st use b i → st'.word b (i + W_TYPE) = st.word b (i + W_TYPE) ∧
      st'.word b (i + W_DIR) = st.word b (i + W_DIR)) : Moves st use st' use' :=
  of_dir hasked hpage (fun b i hf => (hword b i hf).1) fun b i hf => Or.inl (hword b i hf).2

end Moves

/-- Functions that keep the layout. They stop only when the kernel has no page. -/
def layoutContract : Contract FsState Uses Stop where
  inv := Layout
  moves := Moves
  allowed st e := e = .kernelPanic ∧ ∃ n, st.mem n = false
  refl := Moves.refl
  trans := Moves.trans
  back h h' := ⟨h'.1, h.asked.back h'.2⟩

end Mos.Fs
