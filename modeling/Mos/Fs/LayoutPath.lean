import Mos.Fs.LayoutRun

/-!
# MOS on RISC-V — paths on a file system that is laid out

`walk_path`, `file_open` and `file_remove` keep `Layout`, as the functions on the
blocks of a file do. A path ends at a file whose `f_dir` is null or a file again
(`walkPath_runs`): the one of the root is null, and `dir_lookup` sets that of each
file it finds. `dir_lookup` fills the holes of a directory (`FsState.Hole`), with blocks
that must not be cached; no hole is found on a disk without any (`FsState.Dense`).
-/

namespace Mos.Fs

open Mos.Lib Mos.Kern

variable {st st' : FsState} {use use' : Uses} {u : Use} {b c i j k : Nat}

-- ---------------------------------------------------------------------------
-- Directories without holes
-- ---------------------------------------------------------------------------

/-- How many blocks `dir_lookup` looks at. -/
def FsState.dirBlocks (st : FsState) (b i : Nat) : Nat := (st.word b (i + W_SIZE)).toNat / BY2BLK

/-- A file that a path may lead to. -/
inductive Found (st : FsState) : Nat → Nat → Prop where
  | root : Found st 1 2
  | entry {b i n d k : Nat} (h : Found st b i) (hdir : st.isDir b i = true) (hn : n < st.dirBlocks b i)
      (hd : st.Names b i n d) (hk : k < FILE2BLK) : Found st d (64 * k)

/-- No directory that a path may lead to has a hole. -/
def FsState.Dense (st : FsState) : Prop :=
  ∀ b i n, Found st b i → st.isDir b i = true → n < st.dirBlocks b i → ¬ st.Hole b i n

/-- A path that goes on from the file at `f` takes no cached block for a directory. -/
def Walks (st : FsState) (f : Nat) : Prop :=
  FreshInv st ∨ (st.Dense ∧ ∃ b i, f = addr b i ∧ Found st b i)

theorem Layout.names_use (h : Layout st use) (hf : FileSlot use b i) {n d : Nat} (hd : st.Names b i n d) :
    use d = some (.content (st.isDir b i)) := by
  obtain ⟨b', j, hs, hne, rfl⟩ := hd
  exact h.ptrNamed (h.slot_ptr hf hs) hne

theorem Found.slot (hf : Found st b i) (h : Layout st use) : FileSlot use b i := by
  induction hf with
  | root => exact .root
  | entry _ hdir _ hd hk ih =>
    have huse := h.names_use ih hd
    rw [hdir] at huse
    exact .entry huse hk

/-- Files stay as they are, but for `f_dir`. -/
structure SameFiles (st st' : FsState) (use : Uses) : Prop where
  field : ∀ b i k, FileSlot use b i → k < 64 → k ≠ W_DIR → st'.word b (i + k) = st.word b (i + k)
  table : ∀ b j d, use b = some (.table d) → j < 1024 → st'.word b j = st.word b j

namespace SameFiles

theorem of_contents (hcontents : st'.contents = st.contents) : SameFiles st st' use := by
  have hword : st'.word = st.word := by
    funext b j
    unfold FsState.word
    rw [hcontents]
  exact ⟨fun _ _ _ _ _ _ => by rw [hword], fun _ _ _ _ _ => by rw [hword]⟩

variable (hs : SameFiles st st' use)
include hs

theorem isDir (hf : FileSlot use b i) : st'.isDir b i = st.isDir b i := by
  unfold FsState.isDir
  rw [hs.field b i W_TYPE hf (by decide) (by decide)]

theorem dirBlocks (hf : FileSlot use b i) : st'.dirBlocks b i = st.dirBlocks b i := by
  unfold FsState.dirBlocks
  rw [hs.field b i W_SIZE hf (by decide) (by decide)]

theorem names (h : Layout st use) (hf : FileSlot use b i) (n d : Nat) :
    st'.Names b i n d ↔ st.Names b i n d := by
  have hslot : st'.slot b i n = st.slot b i n := by
    unfold FsState.slot
    rw [hs.field b i W_INDIRECT hf (by decide) (by decide)]
  have hword : ∀ b' j, st.slot b i n = some (b', j) → st'.word b' j = st.word b' j := by
    intro b' j hs'
    unfold FsState.slot at hs'
    split_ifs at hs' with hn hn'
    · cases hs'
      rw [Nat.add_assoc]
      simp only [NDIRECT] at hn
      exact hs.field b i _ hf (by simp only [W_DIRECT]; omega) (by simp only [W_DIRECT, W_DIR]; omega)
    · cases hs'
      exact hs.table _ _ _ (h.ptrNamed (.table hf) hn'.2) hn'.1
  unfold FsState.Names
  rw [hslot]
  refine exists_congr fun b' => exists_congr fun j => and_congr_right fun hs' => ?_
  rw [hword b' j hs']

theorem found (h : Layout st use) : Found st' b i ↔ Found st b i := by
  constructor
  · intro hf
    induction hf with
    | root => exact .root
    | entry _ hdir hn hd hk ih =>
      have hslot := ih.slot h
      rw [hs.isDir hslot] at hdir
      rw [hs.dirBlocks hslot] at hn
      exact .entry ih hdir hn ((hs.names h hslot _ _).mp hd) hk
  · intro hf
    induction hf with
    | root => exact .root
    | entry hf hdir hn hd hk ih =>
      have hslot := hf.slot h
      rw [← hs.isDir hslot] at hdir
      rw [← hs.dirBlocks hslot] at hn
      exact .entry ih hdir hn ((hs.names h hslot _ _).mpr hd) hk

theorem dense (h : Layout st use) (hdense : st.Dense) : st'.Dense := by
  intro b i n hf hdir hn hhole
  have hf := (hs.found h).mp hf
  have hslot := hf.slot h
  rw [hs.isDir hslot] at hdir
  rw [hs.dirBlocks hslot] at hn
  exact hdense b i n hf hdir hn ⟨hhole.1, fun d hd => hhole.2 d ((hs.names h hslot n d).mpr hd)⟩

end SameFiles

-- ---------------------------------------------------------------------------
-- Directories and paths
-- ---------------------------------------------------------------------------

/-- A byte of a file in the cache. -/
theorem loadByte_run (h : Layout st use) (hf : FileAt st use b i) (hk : k < BY2FILE) :
    ∃ c, loadByte (addr b i) k st = .ok (c, st) := by
  have hva : addr b i + k / 4 * 4 = addr b (i + k / 4) := by
    rw [Nat.mul_comm]
    exact addr_add b i (k / 4)
  unfold loadByte
  simp only [BY2FILE] at hk
  rw [hva, run_bind (h.loadField hf (by omega))]
  exact ⟨_, rfl⟩

theorem strcmpEq_run (h : Layout st use) (hf : FileAt st use b i) (name : List Nat)
    (hk : k + name.length < BY2FILE) : ∃ r, strcmpEq (addr b i) k name st = .ok (r, st) := by
  induction name generalizing k with
  | nil =>
    obtain ⟨c, hload⟩ := loadByte_run h hf hk
    exact ⟨_, run_bind hload _⟩
  | cons c cs ih =>
    rw [List.length_cons] at hk
    obtain ⟨c', hload⟩ := loadByte_run h hf (Nat.lt_of_le_of_lt (Nat.le_add_right k _) hk)
    unfold strcmpEq
    rw [run_bind hload]
    split_ifs
    · exact ih (by omega)
    · exact ⟨_, rfl⟩

/-- The files of a block of a directory. -/
theorem findName_run (h : Layout st use) (hb : (st.cache b).isSome) (hdir : use b = some .dir)
    {name : List Nat} (hname : name.length < BY2FILE) (n j : Nat) (hj : j + n ≤ FILE2BLK) :
    ∃ r, findName name n (addr b (64 * j)) st = .ok (r, st) ∧
      ∀ f, r = some f → ∃ m < FILE2BLK, f = addr b (64 * m) := by
  induction n generalizing j with
  | zero => exact ⟨_, rfl, nofun⟩
  | succ n ih =>
    have hat : FileAt st use b (64 * j) := ⟨hb, .entry hdir (by omega)⟩
    obtain ⟨r, hcmp⟩ := strcmpEq_run h hat name (k := 0) (by omega)
    unfold findName
    rw [run_bind hcmp]
    cases r with
    | true =>
      refine ⟨_, rfl, fun f hf => ⟨j, by omega, ?_⟩⟩
      cases hf
      rfl
    | false =>
      have hnext : addr b (64 * j) + BY2FILE = addr b (64 * (j + 1)) := addr_add b (64 * j) 64
      rw [hnext]
      exact ih (j + 1) (by omega)

theorem addr_toNat (h : Layout st use) (hf : FileSlot use b i) :
    (BitVec.ofNat 32 (addr b i)).toNat = addr b i := by
  obtain ⟨u, hu⟩ := h.slotUse hf
  have hb := h.lt hu
  have hi := hf.lt
  rw [BitVec.toNat_ofNat, Nat.mod_eq_of_lt]
  simp only [addr, diskaddr, DISKMAP, DISKMAX, BY2BLK, BY2PG] at hb ⊢
  omega

/-- `dir_lookup` sets `f_dir` of the file it found. -/
theorem setDir_runs (h : Layout st use) (hf : FileAt st use b i) (hc : (st.cache c).isSome)
    (hdir : use c = some .dir) (hj : j < FILE2BLK) :
    Runs layoutContract (storeAt (addr c (64 * j) + F_DIR) (BitVec.ofNat 32 (addr b i))) st use
      fun _ st' use' => Linked st' use' (addr c (64 * j)) ∧ SameFiles st st' use ∧
        (FreshInv st → FreshInv st') := by
  have hat : FileAt st use c (64 * j) := ⟨hc, .entry hdir hj⟩
  have hlt := hat.slot.lt
  have hnum := addr_toNat h hf.slot
  rw [addr_dir]
  have hword : ∀ d k, FileSlot use d k → ∀ m < 64,
      (st.storeWord c (Fin.ofNat 1024 (64 * j + W_DIR)) (BitVec.ofNat 32 (addr b i))).word d (k + m) =
        if d = c ∧ k = 64 * j ∧ m = W_DIR then BitVec.ofNat 32 (addr b i) else st.word d (k + m) := by
    intro d k hfile m hm
    have hklt := hfile.lt
    rw [word_storeWord hc (by simp only [W_DIR]; omega) (by omega)]
    refine if_congr (and_congr_right ?_) rfl rfl
    rintro rfl
    refine ⟨fun heq => hfile.field_inj h.superUse hat.slot hm (by decide) heq, ?_⟩
    rintro ⟨rfl, rfl⟩
    rfl
  have hmoves : Moves st use (st.storeWord c (Fin.ofNat 1024 (64 * j + W_DIR)) (BitVec.ofNat 32 (addr b i)))
      use := by
    refine .of_dir (storeWord_asked ..) (fun d hd => ⟨by rw [st.storeWord_isSome hc]; exact hd, .refl _⟩)
      (fun d k hfile => ?_) fun d k hfile => ?_
    · rw [hword d k hfile.slot W_TYPE (by decide), if_neg fun hd => absurd hd.2.2 (by decide)]
    · rw [hword d k hfile.slot W_DIR (by decide)]
      split_ifs
      · exact Or.inr ⟨b, i, hnum, hf⟩
      · exact Or.inl rfl
  have hsame : SameFiles st (st.storeWord c (Fin.ofNat 1024 (64 * j + W_DIR)) (BitVec.ofNat 32 (addr b i)))
      use := by
    refine ⟨fun d k m hfile hm hne => ?_, fun d k t htable hk => ?_⟩
    · rw [hword d k hfile m hm, if_neg fun hd => hne hd.2.2]
    · rw [word_storeWord hc (by simp only [W_DIR]; omega) hk, if_neg]
      rintro ⟨rfl, -⟩
      rw [hdir] at htable
      cases htable
  refine .of_ok (C := layoutContract) (h.storeField_run hat (by decide) _)
    (h.storeField hat (by decide) (by decide) (fun _ => hdir) _) hmoves
    ⟨⟨c, 64 * j, rfl, hat.moves hmoves, Or.inr ⟨b, i, ?_, hf.moves hmoves⟩⟩, hsame,
      fun hfresh => (h.plainFile hat (by decide)).storeWord hfresh _⟩
  rw [hword c (64 * j) hat.slot W_DIR (by decide), if_pos ⟨rfl, rfl, rfl⟩]
  exact hnum

theorem dirLookupFrom_runs {name : List Nat} (hname : name.length < BY2FILE) (n k : Nat)
    (h : Layout st use) (hf : FileAt st use b i) (hdir : st.isDir b i = true)
    (hwalks : FreshInv st ∨ (st.Dense ∧ Found st b i ∧ k + n ≤ st.dirBlocks b i)) :
    Runs layoutContract (dirLookupFrom (addr b i) name n k) st use fun r st' use' =>
      ∀ f, r = .ok f → Linked st' use' f ∧ Walks st' f := by
  induction n generalizing k st use with
  | zero => exact .of_same rfl h nofun
  | succ n ih =>
    unfold dirLookupFrom
    have htakes : TakesFresh st b i k := .of_fresh <| hwalks.imp_right fun ⟨hdense, hfound, hle⟩ =>
      hdense b i k hfound hdir (by omega)
    refine (fileGetBlock_runs h hf htakes).bind ?_
    rintro r st₁ use₁ h₁ hm₁ ⟨hfresh, hsame, hblock⟩
    have hdir₁ : st₁.isDir b i = true := (hm₁.type b i hf).trans hdir
    have hwalks₁ : FreshInv st₁ ∨ (st₁.Dense ∧ Found st₁ b i ∧ k + 1 + n ≤ st₁.dirBlocks b i ∧
        ∀ d, r = .ok d → st₁.Names b i k d) := by
      refine hwalks.imp hfresh fun ⟨hdense, hfound, hle⟩ => ?_
      obtain ⟨hcontents, hnames⟩ := hsame (hdense b i k hfound hdir (by omega))
      have hfiles : SameFiles st st₁ use := .of_contents hcontents
      refine ⟨hfiles.dense h hdense, (hfiles.found h).mpr hfound, ?_, fun d hd => ?_⟩
      · rw [hfiles.dirBlocks hf.slot]
        omega
      · exact (hfiles.names h hf.slot k d).mpr (hnames d hd)
    cases r with
    | error e => exact .of_same rfl h₁ nofun
    | ok d =>
      obtain ⟨hd, huse⟩ := hblock d rfl
      rw [hdir] at huse
      obtain ⟨r, hfind, hfound⟩ := findName_run h₁ hd huse hname FILE2BLK 0 (by decide)
      refine .bind_same (show findName name FILE2BLK (diskaddr d) st₁ = _ from hfind) ?_
      cases r with
      | none =>
        exact ih (k + 1) h₁ (hf.moves hm₁) hdir₁
          (hwalks₁.imp_right fun ⟨hdense, hfound, hle, _⟩ => ⟨hdense, hfound, hle⟩)
      | some f =>
        obtain ⟨m, hm, rfl⟩ := hfound f rfl
        refine (setDir_runs h₁ (hf.moves hm₁) hd huse hm).bind ?_
        rintro _ st₂ use₂ h₂ _ ⟨hlinked, hfiles, hfresh₂⟩
        refine .of_same rfl h₂ fun f hf => ?_
        cases hf
        refine ⟨hlinked, hwalks₁.imp hfresh₂ fun ⟨hdense, hfound, hle, hnames⟩ => ?_⟩
        have hentry : Found st₁ d (64 * m) := .entry hfound hdir₁ (by omega) (hnames d rfl) hm
        exact ⟨hfiles.dense h₁ hdense, d, 64 * m, rfl, (hfiles.found h₁).mpr hentry⟩

theorem dirLookup_runs (h : Layout st use) (hf : FileAt st use b i) (hdir : st.isDir b i = true)
    (hwalks : Walks st (addr b i)) {name : List Nat} (hname : name.length < BY2FILE) :
    Runs layoutContract (dirLookup (addr b i) name) st use fun r st' use' =>
      ∀ f, r = .ok f → Linked st' use' f ∧ Walks st' f := by
  unfold dirLookup
  rw [addr_size]
  refine .bind_same (h.loadField hf (by decide)) (dirLookupFrom_runs hname _ _ h hf hdir ?_)
  refine hwalks.imp_right fun ⟨hdense, b', i', haddr, hfound⟩ => ?_
  have hlt := hf.slot.lt
  have hlt' := (hfound.slot h).lt
  obtain ⟨rfl, rfl⟩ := addr_inj (by omega) (by omega) haddr
  exact ⟨hdense, hfound, Nat.le_of_eq (Nat.zero_add _)⟩

/-- The root directory. -/
theorem root_linked (h : Layout st use) : Linked st use sRoot :=
  ⟨1, 2, rfl, ⟨h.ready.superPage, .root⟩, Or.inl (by rw [h.rootDir]; rfl)⟩

theorem walkFrom_runs (n : Nat) {dir : Option Nat} {file : Nat} {path : List Nat} (h : Layout st use)
    (hf : Linked st use file) (hwalks : Walks st file) :
    Runs layoutContract (walkFrom n dir file path) st use fun w st' use' =>
      ∀ f, w.file = some f → Linked st' use' f := by
  have hend : ∀ r e, Runs layoutContract (pure ⟨r, dir, some file, e⟩ : FsM Walk) st use fun w st' use' =>
      ∀ f, w.file = some f → Linked st' use' f := by
    intro r e
    refine .of_same rfl h fun f hfile => ?_
    cases hfile
    exact hf
  induction n generalizing st use dir file path with
  | zero => exact hend 0 []
  | succ n ih =>
    unfold walkFrom
    refine .ite (fun _ => hend 0 []) fun _ => .ite (fun _ => .of_same rfl h nofun) fun hname => ?_
    obtain ⟨b, i, rfl, hat⟩ := hf.fileAt
    rw [addr_type]
    refine .bind_same (h.loadField hat (by decide)) (.ite (fun _ => .of_same rfl h nofun) fun htype => ?_)
    have hdir : st.isDir b i = true := decide_eq_true (not_not.mp htype)
    have hlen : (path.takeWhile (· ≠ slash)).length < BY2FILE :=
      Nat.lt_trans (Nat.not_le.mp hname) (by decide)
    refine (dirLookup_runs h hat hdir hwalks hlen).bind ?_
    intro r st₁ use₁ h₁ _ hlook
    cases r with
    | error e => exact .ite (fun _ => .of_same rfl h₁ nofun) fun _ => .of_same rfl h₁ nofun
    | ok f =>
      obtain ⟨hf₁, hwalks₁⟩ := hlook f rfl
      refine ih h₁ hf₁ hwalks₁ fun r e => .of_same rfl h₁ fun f' hfile => ?_
      cases hfile
      exact hf₁

/-- `walk_path` from the root. -/
theorem walkPath_runs (h : Layout st use) (hwalks : FreshInv st ∨ st.Dense) (path : List Nat) :
    Runs layoutContract (walkPath path) st use fun w st' use' => ∀ f, w.file = some f → Linked st' use' f :=
  walkFrom_runs _ h (root_linked h) (hwalks.imp_right fun hdense => ⟨hdense, 1, 2, rfl, .root⟩)

theorem fileOpen_runs (h : Layout st use) (hwalks : FreshInv st ∨ st.Dense) (path : List Nat) :
    Runs layoutContract (fileOpen path) st use fun r st' use' => ∀ f, r = .ok f → Linked st' use' f := by
  unfold fileOpen
  refine (walkPath_runs h hwalks path).bind ?_
  intro w st₁ use₁ h₁ _ hwalk
  cases hw : w.file with
  | none => exact .of_same rfl h₁ nofun
  | some f =>
    refine .of_same rfl h₁ fun f' hf => ?_
    cases hf
    exact hwalk f hw

-- ---------------------------------------------------------------------------
-- file_remove
-- ---------------------------------------------------------------------------

theorem clearName_runs (h : Layout st use) (hf : FileAt st use b i) :
    Runs layoutContract (clearName (addr b i)) st use fun _ _ _ => True := by
  unfold clearName
  refine .bind_same (h.loadField hf (k := 0) (by decide)) ?_
  exact .of_ok (C := layoutContract) (h.storeField_run hf (k := 0) (by decide) _)
    (h.storeField hf (by decide) (by decide) (fun heq => absurd heq (by decide)) _)
    (.storeField h.superUse hf (by decide) (by decide) _) trivial

/-- `file_remove`; if it finds a directory, the blocks of that are not cached. -/
theorem fileRemove_runs (h : Layout st use) (hwalks : FreshInv st ∨ st.Dense) (path : List Nat)
    (htidy : ∀ st₁ b i, fileOpen path st = .ok (.ok (addr b i), st₁) → i < 1024 → Truncates st₁ b i 0) :
    Runs layoutContract (fileRemove path) st use fun _ _ _ => True := by
  unfold fileRemove
  refine (fileOpen_runs h hwalks path).and_run.bind ?_
  rintro r st₁ use₁ h₁ hm₁ ⟨hopen, hrun⟩
  cases r with
  | error e => exact .of_same rfl h₁ trivial
  | ok f =>
    have hf := hopen f rfl
    obtain ⟨b, i, rfl, hat⟩ := hf.fileAt
    have hlt := hat.slot.lt
    refine (fileTruncate_runs h₁ hat (htidy st₁ b i hrun (by omega))).bind ?_
    intro _ st₂ use₂ h₂ hm₂ _
    refine (clearName_runs h₂ (hat.moves hm₂)).bind ?_
    intro _ st₃ use₃ h₃ hm₃ _
    have hm := hm₂.trans hm₃
    refine (fileFlush_runs h₃ (hat.moves hm)).bind ?_
    intro _ st₄ use₄ h₄ hm₄ _
    refine (flushDir_runs h₄ ((hm.trans hm₄).linked _ hf)).bind ?_
    intro _ st₅ use₅ h₅ _ _
    exact .of_same rfl h₅ trivial

end Mos.Fs
