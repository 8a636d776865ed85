import Mos.Fs.Lasts
import Mos.Fs.ServRun

/-!
# MOS on RISC-V — what the handlers leave for the next server

The functions of `fs/fs.c` that change files, and the handlers of `fs/serv.c`, under `Lasts`.
A block of data that `FSREQ_MAP` allocates may be stale until the client says that it is dirty;
a new table is stored to before the handler returns, if there is a block for the data.

* `serve_lasts` — a request that makes no block of a directory and does not fail half-way makes
  nothing stale but the block that its reply brings.
-/

namespace Mos.Fs

open Mos.Lib Mos.Kern

variable {st st₁ st' : FsState} {use use' : Uses} {u : Use} {b c d i j n : Nat} {S : Nat → Prop}

-- ---------------------------------------------------------------------------
-- file_truncate
-- ---------------------------------------------------------------------------

theorem fileClearBlock_lasts (h : Layout st use) (hf : FileAt st use b i) {r : Int}
    (hrun : fileClearBlock (addr b i) n st = .ok (r, st')) : Lasts S st st' := by
  unfold fileClearBlock at hrun
  obtain ⟨r₁, st₁, hwalk, hrest⟩ := run_bind_eq_ok.mp hrun
  have hlasts : Lasts S st st₁ := fileBlockWalk_lasts h hf (fun hc => absurd hc Bool.false_ne_true) hwalk
  obtain ⟨use₁, h₁, hm₁, rfl, hsame, hslot⟩ := (fileBlockWalk_reads h hf n).ok hwalk
  cases hs : st.slot b i n with
  | none =>
    rw [hs] at hslot
    obtain ⟨e, rfl⟩ := hslot
    cases hrest
    exact hlasts
  | some p =>
    obtain ⟨b', j⟩ := p
    rw [hs] at hslot
    obtain ⟨rfl, hb⟩ := hslot
    have hs₁ : st₁.slot b i n = some (b', j) := (slot_congr hsame.contents b i n).trans hs
    have hp := h₁.slot_ptr hf.slot hs₁
    obtain ⟨v, hv⟩ := h₁.ptrUse hp
    simp only at hrest
    rw [run_bind (h₁.loadAt hv hb hp.lt)] at hrest
    split_ifs at hrest with hne
    · obtain ⟨_, st₂, hfree, hrest⟩ := run_bind_eq_ok.mp hrest
      obtain ⟨_, st₃, hstore, hend⟩ := run_bind_eq_ok.mp hrest
      cases hend
      exact hlasts.trans (h₁.detach_lasts hp hb hne (run_bind_eq_ok.mpr ⟨_, _, hfree, hstore⟩))
    · cases hrest
      exact hlasts

theorem clearIndirect_lasts (h : Layout st use) (hf : FileAt st use b i)
    (hrun : clearIndirect (addr b i) st = .ok ((), st')) : Lasts S st st' := by
  unfold clearIndirect at hrun
  rw [addr_indirect, run_bind (h.loadField hf (by decide))] at hrun
  split_ifs at hrun with hne
  · exact h.detach_lasts (.table hf.slot) hf.cached hne hrun
  · cases hrun
    exact .refl S st

/-- A store to a field of a file. -/
theorem storeAt_lasts {k : Nat} (h : Layout st use) (hf : FileAt st use b i) (hk : k < 64) {w : BitVec 32}
    (hrun : storeAt (addr b (i + k)) w st = .ok ((), st')) : Lasts S st st' := by
  rw [h.storeField_run hf hk w] at hrun
  cases hrun
  exact h.storeField_lasts hf hk w

theorem fileTruncate_lasts (h : Layout st use) (hf : FileAt st use b i) {newsize : Nat}
    (htidy : Truncates st b i newsize) (hrun : fileTruncate (addr b i) newsize st = .ok ((), st')) :
    Lasts S st st' := by
  unfold fileTruncate at hrun
  rw [addr_size, run_bind (h.loadField hf (by decide))] at hrun
  obtain ⟨_, st₁, hloop, hrest⟩ := run_bind_eq_ok.mp hrun
  obtain ⟨use₁, h₁, hf₁, -, hlasts⟩ := forM_range_inv
    (fun m s => ∃ use', Layout s use' ∧ FileAt s use' b i ∧
      TruncTidy s b i (newNblocks newsize + m) (oldNblocks st b i) ∧ Lasts S st s)
    (oldNblocks st b i - newNblocks newsize) ⟨use, h, hf, htidy, .refl S st⟩ (by
      rintro m hm s s' ⟨use₁, h₁, hf₁, htidy₁, hlasts⟩ hbody
      obtain ⟨_, s₁, hclear, hend⟩ := run_bind_eq_ok.mp hbody
      cases hend
      have hlt : newNblocks newsize + m < oldNblocks st b i := by omega
      obtain ⟨use₂, h₂, hm₂, hcleared⟩ :=
        (fileClearBlock_runs h₁ hf₁ _ fun hdir d => htidy₁ hdir _ d (Nat.le_refl _) hlt).ok hclear
      exact ⟨use₂, h₂, hf₁.moves hm₂, htidy₁.next h₁ hf₁ hm₂ hcleared,
        hlasts.trans (fileClearBlock_lasts h₁ hf₁ hclear)⟩) hloop
  have hrest : (if newNblocks newsize ≤ NDIRECT then do
      clearIndirect (addr b i)
      storeAt (addr b (i + W_SIZE)) (BitVec.ofNat 32 newsize)
    else storeAt (addr b (i + W_SIZE)) (BitVec.ofNat 32 newsize)) st₁ = .ok ((), st') := hrest
  split_ifs at hrest
  · obtain ⟨_, st₂, hclear, hstore⟩ := run_bind_eq_ok.mp hrest
    obtain ⟨use₂, h₂, hm₂, -⟩ := (clearIndirect_runs h₁ hf₁).ok hclear
    exact (hlasts.trans (clearIndirect_lasts h₁ hf₁ hclear)).trans
      (storeAt_lasts h₂ (hf₁.moves hm₂) (by decide) hstore)
  · exact hlasts.trans (storeAt_lasts h₁ hf₁ (by decide) hrest)

theorem fileSetSize_lasts (h : Layout st use) (hf : Linked st use (addr b i)) (hat : FileAt st use b i) {newsize : Nat}
    (htidy : newsize < (st.word b (i + W_SIZE)).toNat → Truncates st b i newsize) {r : Int}
    (hrun : fileSetSize (addr b i) newsize st = .ok (r, st')) : Lasts S st st' := by
  have hend : ∀ {st₁ use₁}, Layout st₁ use₁ → Moves st use st₁ use₁ →
      (do
        storeAt (addr b (i + W_SIZE)) (BitVec.ofNat 32 newsize)
        flushDir (addr b i)
        return (0 : Int)) st₁ = .ok (r, st') → Lasts S st₁ st' := by
    intro st₁ use₁ h₁ hm₁ hrun
    obtain ⟨_, st₂, hstore, hrun⟩ := run_bind_eq_ok.mp hrun
    obtain ⟨_, st₃, hflush, hend⟩ := run_bind_eq_ok.mp hrun
    cases hend
    have hat₁ := hat.moves hm₁
    obtain ⟨use₂, h₂, hm₂, -⟩ := (storeSize_runs h₁ hat₁ _).ok hstore
    exact (storeAt_lasts h₁ hat₁ (by decide) hstore).trans
      (flushDir_lasts h₂ (hm₂.linked _ (hm₁.linked _ hf)) hflush)
  unfold fileSetSize at hrun
  rw [addr_size, run_bind (h.loadField hat (by decide))] at hrun
  split_ifs at hrun with hlt
  · obtain ⟨_, st₁, htrunc, hrest⟩ := run_bind_eq_ok.mp hrun
    obtain ⟨use₁, h₁, hm₁, -⟩ := (fileTruncate_runs h hat (htidy hlt)).ok htrunc
    exact (fileTruncate_lasts h hat (htidy hlt) htrunc).trans (hend h₁ hm₁ hrest)
  · exact hend h (.refl st use) hrun

-- ---------------------------------------------------------------------------
-- New blocks
-- ---------------------------------------------------------------------------

/-- A slot that is empty gets a new block, or there is none. -/
theorem needBlock_new (h : Layout st use) (hp : Ptr st use b j u) (hb : (st.cache b).isSome)
    (hzero : st.word b j = 0) {r : Int} (hrun : needBlock (addr b j) true st = .ok (r, st')) :
    (r < 0 ∧ ∃ e, allocBlock st = .ok (.error e, st')) ∨
      ∃ c st₁, ¬ r < 0 ∧ allocBlock st = .ok (.ok c, st₁) ∧ Allocated st st₁ c ∧
        st' = st₁.storeWord b (Fin.ofNat 1024 j) (BitVec.ofNat 32 c) ∧ (st'.word b j).toNat = c := by
  obtain ⟨v, hv⟩ := h.ptrUse hp
  unfold needBlock at hrun
  rw [run_bind (h.loadAt hv hb hp.lt), if_pos hzero, if_pos rfl] at hrun
  obtain ⟨r₁, st₁, halloc, hrest⟩ := run_bind_eq_ok.mp hrun
  cases r₁ with
  | error e =>
    cases hrest
    exact Or.inl ⟨allocBlock_error h.ready halloc, _, halloc⟩
  | ok c =>
    have ha := allocBlock_allocated h.ready halloc
    have hb₁ := ha.mapped b hb
    simp only at hrest
    rw [run_bind (storeAt_located (locate_addr (h.lt hv) hp.lt) hb₁ _)] at hrest
    cases hrest
    refine Or.inr ⟨c, st₁, by decide, halloc, ha, rfl, ?_⟩
    rw [word_storeWord hb₁ hp.lt hp.lt, if_pos ⟨rfl, rfl⟩, BitVec.toNat_ofNat]
    exact Nat.mod_eq_of_lt (Nat.lt_trans ha.free.1 (st.words 1 1).isLt)

/-- The block that a slot names in the end may be stale, if it is new. -/
theorem needBlock_lasts (h : Layout st use) (hp : Ptr st use b j u) (hb : (st.cache b).isSome) {r : Int}
    (hrun : needBlock (addr b j) true st = .ok (r, st'))
    (hS : ¬ r < 0 → st.word b j = 0 → S (st'.word b j).toNat) : Lasts S st st' := by
  by_cases hzero : st.word b j = 0
  · rcases needBlock_new h hp hb hzero hrun with ⟨-, e, halloc⟩ | ⟨c, st₁, hr, halloc, ha, rfl, hword⟩
    · exact allocBlock_lasts h.ready halloc nofun
    · have hplain : Plain st₁ b (Fin.ofNat 1024 j) :=
        (h.plainPtr hp hb).mono (fun _ => ha.mapped b hb) ha.nblocks
      refine (allocBlock_lasts h.ready halloc fun c' hc => ?_).trans (.storeWord hplain (h.ptrLow hp) _)
      cases hc
      rw [← hword]
      exact hS hr hzero
  · obtain ⟨v, hv⟩ := h.ptrUse hp
    rw [needBlock_there (h.loadAt hv hb hp.lt) hzero] at hrun
    cases hrun
    exact .refl S st

/-- A block that is stored to is not stale. -/
theorem not_stale_storeWord (st : FsState) (b : Nat) (k : Fin 1024) (w : BitVec 32) : ¬ (st.storeWord b k w).Stale b := by
  rintro ⟨p, hp, hclean, -⟩
  unfold FsState.storeWord at hp
  rw [FsState.setPage_self] at hp
  cases hp
  cases hclean

/-- The one block that has become stale in between is not so in the end. -/
theorem Lasts.drop (h : Lasts (· = c) st st₁) (h' : Lasts S st₁ st') (hc : ¬ st'.Stale c) : Lasts S st st' where
  magic := h'.magic.trans h.magic
  size := h'.size.trans h.size
  boot hf := h.boot (h'.boot hf)
  stale d hd := by
    rcases h'.stale d hd with hd' | hd'
    · refine (h.stale d hd').imp_right fun hdc => ?_
      rw [hdc] at hd
      exact absurd hd hc
    · exact Or.inr hd'
  dirty d hd := h'.dirty d (h.dirty d hd)

/-- A block that was not cached has a page of zeros when its number is stored in another. -/
theorem Allocated.word_zero (ha : Allocated st st₁ c) (hnone : st.cache c = none) (hb : (st₁.cache b).isSome)
    (hbc : b ≠ c) (k : Fin 1024) (w : BitVec 32) (j : Nat) : (st₁.storeWord b k w).word c j = 0 := by
  have hpage := ha.page hnone
  unfold FsState.word
  rw [storeWord_contents hb, if_neg hbc.symm, contents_mapped (by rw [hpage]; rfl), st₁.words_of_cache hpage]
  rfl

/-- `file_block_walk` with `alloc` makes a table of zeros, or nothing stale. -/
theorem fileBlockWalk_new (h : Layout st use) (hf : FileAt st use b i)
    (hnext : NDIRECT ≤ n → n < NINDIRECT → st.word b (i + W_INDIRECT) = 0 → st.NextFresh) {r : Except Int Nat}
    (hrun : fileBlockWalk (addr b i) n true st = .ok (r, st₁)) :
    (∀ S, Lasts S st st₁) ∨ ∃ c, r = .ok (addr c n) ∧ Lasts (· = c) st st₁ ∧ st₁.word c n = 0 ∧
      st.word b (i + W_INDIRECT) = 0 ∧ st₁.word b (i + W_INDIRECT) ≠ 0 := by
  by_cases hthere : NDIRECT ≤ n → n < NINDIRECT → st.word b (i + W_INDIRECT) ≠ 0
  · exact Or.inl fun S => fileBlockWalk_lasts h hf (fun _ => hthere) hrun
  simp only [not_forall, not_not] at hthere
  obtain ⟨hlo, hhi, hzero⟩ := hthere
  have hp : Ptr st use b (i + W_INDIRECT) (.table (st.isDir b i)) := .table hf.slot
  unfold fileBlockWalk at hrun
  rw [if_neg (Nat.not_lt.mpr hlo), if_pos hhi, addr_indirect] at hrun
  obtain ⟨r₁, st₂, hneed, hrest⟩ := run_bind_eq_ok.mp hrun
  rcases needBlock_new h hp hf.cached hzero hneed with ⟨hr, e, halloc⟩ | ⟨c, st₃, -, halloc, ha, rfl, hword⟩
  · rw [if_pos hr] at hrest
    cases hrest
    exact Or.inl fun S => allocBlock_lasts h.ready halloc nofun
  · have hge := allocBlock_ge h.ready halloc
    have hnone : st.cache c = none := hnext hlo hhi hzero c st₃ halloc
    have hb := ha.mapped b hf.cached
    have hbc : b ≠ c := by
      rintro rfl
      have hcached := hf.cached
      rw [hnone] at hcached
      cases hcached
    obtain ⟨use₂, h₂, hm₂, -, -, hne⟩ := (needBlock_runs h hp hf.cached fun _ _ => hnext hlo hhi hzero).ok hneed
    have hlasts : Lasts (· = c) st (st₃.storeWord b (Fin.ofNat 1024 (i + W_INDIRECT)) (BitVec.ofNat 32 c)) :=
      needBlock_lasts h hp hf.cached hneed fun _ _ => hword
    have hne0 : (st₃.storeWord b (Fin.ofNat 1024 (i + W_INDIRECT)) (BitVec.ofNat 32 c)).word b (i + W_INDIRECT) ≠ 0 := by
      intro heq
      rw [heq] at hword
      have : (0 : BitVec 32).toNat = 0 := rfl
      omega
    split_ifs at hrest with hr
    · cases hrest
      refine Or.inl fun S => needBlock_lasts h hp hf.cached hneed fun hr' => absurd hr hr'
    · rw [run_bind (h₂.loadField (hf.moves hm₂) (by decide)), hword] at hrest
      obtain ⟨_, st₄, hread, hend⟩ := run_bind_eq_ok.mp hrest
      cases hend
      have hcontents := (readBlock_contents h₂.ready hread).2.2
      refine Or.inr ⟨c, rfl, hlasts.trans (readBlock_lasts h₂.ready hread), ?_, hzero, ?_⟩
      · rw [← ha.word_zero hnone hb hbc (Fin.ofNat 1024 (i + W_INDIRECT)) (BitVec.ofNat 32 c) n]
        unfold FsState.word
        rw [hcontents]
      · refine fun heq => hne0 ?_
        rw [← heq]
        unfold FsState.word
        rw [hcontents]

/-- `file_map_block` with `alloc`, unless it makes a table and has no block for the data. -/
theorem fileMapBlock_lasts (h : Layout st use) (hf : FileAt st use b i) (htakes : TakesFresh st b i n)
    {r : Except Int Nat} (hrun : fileMapBlock (addr b i) n true st = .ok (r, st'))
    (hdone : ∀ e, r = .error e → st'.word b (i + W_INDIRECT) = st.word b (i + W_INDIRECT))
    (hS : st.Hole b i n → ∀ d, r = .ok d → S d) : Lasts S st st' := by
  unfold fileMapBlock at hrun
  obtain ⟨r₁, st₁, hwalk, hrest⟩ := run_bind_eq_ok.mp hrun
  have hnew := fileBlockWalk_new h hf htakes.table hwalk
  obtain ⟨use₁, h₁, hm₁, hgrows, hsame, hslot⟩ := (fileBlockWalk_runs h hf n htakes.table).ok hwalk
  cases r₁ with
  | error e =>
    cases hrest
    rcases hnew with hlasts | ⟨c, hc, -⟩
    · exact hlasts S
    · cases hc
  | ok ptr =>
    obtain ⟨hn, b', j, rfl, hb, hs⟩ := hslot ptr rfl
    have hp : Ptr st₁ use₁ b' j (.content (st.isDir b i)) := by
      rw [← hm₁.type b i hf]
      exact h₁.slot_ptr (hf.moves hm₁).slot hs
    have hhole : st₁.word b' j = 0 → st.Hole b i n := by
      intro hzero
      refine ⟨hn, ?_⟩
      rintro d ⟨b'', j', hs', hne, -⟩
      have hcontents := hsame (Or.inl (by rw [hs']; nofun))
      rw [slot_congr hcontents, hs'] at hs
      cases hs
      unfold FsState.word at hzero hne
      rw [← hcontents] at hne
      exact hne hzero
    simp only at hrest
    obtain ⟨r₂, st₂, hneed, hrest⟩ := run_bind_eq_ok.mp hrest
    have hnext : st₁.word b' j = 0 → Use.content (st.isDir b i) ≠ .data → st₁.NextFresh := by
      intro hzero hdata
      refine (hgrows.fresh (htakes.content ?_ (hhole hzero))).next
      by_contra hdir
      rw [Bool.not_eq_true] at hdir
      rw [hdir] at hdata
      exact hdata rfl
    obtain ⟨use₂, h₂, hm₂, hgrows₂, -⟩ := (needBlock_runs h₁ hp hb hnext).ok hneed
    -- the slot is in the new table, and gets a block
    have hplace : ∀ c, (.ok (addr b' j) : Except Int Nat) = .ok (addr c n) → b' = c ∧ j = n := by
      intro c hc
      exact addr_inj hp.lt (show n < 1024 from hn) (Except.ok.inj hc)
    split_ifs at hrest with hr
    · cases hrest
      have hlasts : Lasts S st₁ st' := needBlock_lasts h₁ hp hb hneed fun hr' => absurd hr hr'
      rcases hnew with hlasts₁ | ⟨c, hc, -, hzero, hz, hnz⟩
      · exact (hlasts₁ S).trans hlasts
      · obtain ⟨rfl, rfl⟩ := hplace c hc
        rcases needBlock_new h₁ hp hb hzero hneed with ⟨-, e, halloc⟩ | ⟨_, _, hr', -⟩
        · have hcontents : st'.contents = st₁.contents := (allocBlock_contents h₁.ready halloc).2
          have hword := (hdone _ rfl).trans hz
          unfold FsState.word at hword hnz
          rw [hcontents] at hword
          exact absurd hword hnz
        · exact absurd hr hr'
    · have hp₂ := hp.moves hb hm₂ hgrows₂.uses
      obtain ⟨v, hv⟩ := h₂.ptrUse hp₂
      rw [run_bind (h₂.loadAt hv (hm₂.page b' hb).1 hp₂.lt)] at hrest
      cases hrest
      have hlasts : Lasts S st₁ st' := needBlock_lasts h₁ hp hb hneed fun _ hzero => hS (hhole hzero) _ rfl
      rcases hnew with hlasts₁ | ⟨c, hc, hlasts₁, hzero, -⟩
      · exact (hlasts₁ S).trans hlasts
      · obtain ⟨rfl, rfl⟩ := hplace c hc
        rcases needBlock_new h₁ hp hb hzero hneed with ⟨hr', -⟩ | ⟨_, st₃, -, -, -, rfl, -⟩
        · exact absurd hr' hr
        · exact hlasts₁.drop hlasts (not_stale_storeWord _ _ _ _)

/-- `file_get_block`, unless it makes a table and has no block for the data. -/
theorem fileGetBlock_lasts (h : Layout st use) (hf : FileAt st use b i) (htakes : TakesFresh st b i n)
    {r : Except Int Nat} (hrun : fileGetBlock (addr b i) n st = .ok (r, st'))
    (hdone : ∀ e, r = .error e → st'.word b (i + W_INDIRECT) = st.word b (i + W_INDIRECT))
    (hS : st.Hole b i n → ∀ d, r = .ok d → S d) : Lasts S st st' := by
  unfold fileGetBlock at hrun
  obtain ⟨r₁, st₁, hmap, hrest⟩ := run_bind_eq_ok.mp hrun
  obtain ⟨use₁, h₁, -⟩ := (fileMapBlock_runs h hf htakes).ok hmap
  cases r₁ with
  | error e =>
    cases hrest
    exact fileMapBlock_lasts h hf htakes hmap hdone hS
  | ok d =>
    obtain ⟨_, st₂, hread, hend⟩ := run_bind_eq_ok.mp hrest
    cases hend
    exact (fileMapBlock_lasts h hf htakes hmap nofun hS).trans (readBlock_lasts h₁.ready hread)

/-- `file_get_block` of a block that is there. -/
theorem getBlock_lasts (h : Layout st use) (hf : FileAt st use b i) (hno : ¬ st.Hole b i n)
    {r : Except Int Nat} (hrun : fileGetBlock (addr b i) n st = .ok (r, st')) : Lasts S st st' := by
  have htakes : TakesFresh st b i n := .of_fresh (Or.inr hno)
  obtain ⟨use₁, -, -, -, hsame, -⟩ := (fileGetBlock_runs h hf htakes).ok hrun
  refine fileGetBlock_lasts h hf htakes hrun (fun e _ => ?_) fun hhole => absurd hhole hno
  unfold FsState.word
  rw [(hsame hno).1]

-- ---------------------------------------------------------------------------
-- Paths
-- ---------------------------------------------------------------------------

/-- The walk comes to a file, and goes on in directories without holes. -/
def WalksTo (st : FsState) (f : Nat) : Prop := st.Dense ∧ ∃ b i, f = addr b i ∧ Found st b i

theorem dirLookupFrom_lasts {name : List Nat} (hname : name.length < BY2FILE) (n k : Nat)
    (h : Layout st use) (hf : FileAt st use b i) (hdir : st.isDir b i = true) (hdense : st.Dense)
    (hfound : Found st b i) (hle : k + n ≤ st.dirBlocks b i) {r : Except Int Nat}
    (hrun : dirLookupFrom (addr b i) name n k st = .ok (r, st')) :
    Lasts S st st' ∧ ∀ f, r = .ok f → WalksTo st' f := by
  induction n generalizing k st use with
  | zero =>
    cases hrun
    exact ⟨.refl S _, fun f hf => by cases hf⟩
  | succ n ih =>
    have hno : ¬ st.Hole b i k := hdense b i k hfound hdir (by omega)
    unfold dirLookupFrom at hrun
    obtain ⟨r₁, st₁, hget, hrest⟩ := run_bind_eq_ok.mp hrun
    have hlasts : Lasts S st st₁ := getBlock_lasts h hf hno hget
    obtain ⟨use₁, h₁, hm₁, -, hsame, hblock⟩ := (fileGetBlock_runs h hf (.of_fresh (Or.inr hno))).ok hget
    obtain ⟨hcontents, hnames⟩ := hsame hno
    have hfiles : SameFiles st st₁ use := .of_contents hcontents
    have hdir₁ : st₁.isDir b i = true := (hm₁.type b i hf).trans hdir
    cases r₁ with
    | error e =>
      cases hrest
      exact ⟨hlasts, fun f hf => by cases hf⟩
    | ok d =>
      obtain ⟨hd, huse⟩ := hblock d rfl
      rw [hdir] at huse
      have hdense₁ : st₁.Dense := hfiles.dense h hdense
      have hfound₁ : Found st₁ b i := (hfiles.found h).mpr hfound
      have hblocks : st₁.dirBlocks b i = st.dirBlocks b i := hfiles.dirBlocks hf.slot
      obtain ⟨r₂, hfind, hplace⟩ := findName_run h₁ hd huse hname FILE2BLK 0 (by decide)
      have hfind : findName name FILE2BLK (diskaddr d) st₁ = .ok (r₂, st₁) := hfind
      simp only at hrest
      rw [run_bind hfind] at hrest
      cases r₂ with
      | none =>
        obtain ⟨hlasts₂, hto⟩ := ih (k + 1) h₁ (hf.moves hm₁) hdir₁ hdense₁ hfound₁ (by omega) hrest
        exact ⟨hlasts.trans hlasts₂, hto⟩
      | some f =>
        obtain ⟨m, hm, rfl⟩ := hplace f rfl
        obtain ⟨_, st₂, hstore, hend⟩ := run_bind_eq_ok.mp hrest
        cases hend
        obtain ⟨use₂, -, -, -, hfiles₂, -⟩ := (setDir_runs h₁ (hf.moves hm₁) hd huse hm).ok hstore
        rw [addr_dir] at hstore
        refine ⟨hlasts.trans (storeAt_lasts h₁ ⟨hd, .entry huse hm⟩ (by decide) hstore), fun f hf' => ?_⟩
        cases hf'
        have hname₁ : st₁.Names b i k d := (hfiles.names h hf.slot k d).mpr (hnames d rfl)
        have hentry : Found st₁ d (64 * m) := .entry hfound₁ hdir₁ (by omega) hname₁ hm
        exact ⟨hfiles₂.dense h₁ hdense₁, d, 64 * m, rfl, (hfiles₂.found h₁).mpr hentry⟩

theorem dirLookup_lasts (h : Layout st use) (hf : FileAt st use b i) (hdir : st.isDir b i = true)
    (hwalks : WalksTo st (addr b i)) {name : List Nat} (hname : name.length < BY2FILE) {r : Except Int Nat}
    (hrun : dirLookup (addr b i) name st = .ok (r, st')) : Lasts S st st' ∧ ∀ f, r = .ok f → WalksTo st' f := by
  obtain ⟨hdense, b', i', haddr, hfound⟩ := hwalks
  have hlt := hf.slot.lt
  have hlt' := (hfound.slot h).lt
  obtain ⟨rfl, rfl⟩ := addr_inj (by omega) (by omega) haddr
  unfold dirLookup at hrun
  rw [addr_size, run_bind (h.loadField hf (by decide))] at hrun
  exact dirLookupFrom_lasts hname _ _ h hf hdir hdense hfound (Nat.le_of_eq (Nat.zero_add _)) hrun

theorem walkFrom_lasts (n : Nat) {dir : Option Nat} {file : Nat} {path : List Nat} (h : Layout st use)
    (hf : Linked st use file) (hwalks : WalksTo st file) {w : Walk}
    (hrun : walkFrom n dir file path st = .ok (w, st')) : Lasts S st st' := by
  induction n generalizing st use dir file path with
  | zero =>
    cases hrun
    exact .refl S _
  | succ n ih =>
    obtain ⟨b, i, rfl, hat⟩ := hf.fileAt
    unfold walkFrom at hrun
    by_cases hpath : path = []
    · rw [if_pos hpath] at hrun
      cases hrun
      exact .refl S _
    rw [if_neg hpath] at hrun
    by_cases hname : MAXNAMELEN ≤ (path.takeWhile (· ≠ slash)).length
    · simp only [if_pos hname] at hrun
      cases hrun
      exact .refl S _
    simp only [if_neg hname] at hrun
    rw [addr_type, run_bind (h.loadField hat (by decide))] at hrun
    split_ifs at hrun with htype
    · cases hrun
      exact .refl S _
    have hdir : st.isDir b i = true := decide_eq_true (not_not.mp htype)
    have hlen : (path.takeWhile (· ≠ slash)).length < BY2FILE :=
      Nat.lt_trans (Nat.not_le.mp hname) (by decide)
    obtain ⟨r, st₁, hlook, hrest⟩ := run_bind_eq_ok.mp hrun
    obtain ⟨hlasts, hto⟩ := dirLookup_lasts (S := S) h hat hdir hwalks hlen hlook
    obtain ⟨use₁, h₁, -, hfile⟩ := (dirLookup_runs h hat hdir (Or.inr hwalks) hlen).ok hlook
    cases r with
    | error e =>
      simp only at hrest
      split_ifs at hrest
      · cases hrest
        exact hlasts
      · cases hrest
        exact hlasts
    | ok f => exact hlasts.trans (ih h₁ (hfile f rfl).1 (hto f rfl) hrest)

theorem fileOpen_lasts (h : Layout st use) (hdense : st.Dense) {path : List Nat} {r : Except Int Nat}
    (hrun : fileOpen path st = .ok (r, st')) : Lasts S st st' := by
  unfold fileOpen walkPath at hrun
  obtain ⟨w, st₁, hwalk, hrest⟩ := run_bind_eq_ok.mp hrun
  have hlasts : Lasts S st st₁ := walkFrom_lasts _ h (root_linked h) ⟨hdense, 1, 2, rfl, .root⟩ hwalk
  cases hw : w.file with
  | none =>
    rw [hw] at hrest
    cases hrest
    exact hlasts
  | some f =>
    rw [hw] at hrest
    cases hrest
    exact hlasts

/-- A name is cleared in its file. -/
theorem clearName_lasts (h : Layout st use) (hf : FileAt st use b i)
    (hrun : clearName (addr b i) st = .ok ((), st')) : Lasts S st st' := by
  unfold clearName at hrun
  obtain ⟨w, st₁, hload, hstore⟩ := run_bind_eq_ok.mp hrun
  have hload' := h.loadField hf (k := 0) (by decide)
  rw [Nat.add_zero] at hload'
  rw [hload'] at hload
  cases hload
  exact storeAt_lasts (k := 0) h hf (by decide) hstore

theorem fileRemove_lasts (h : Layout st use) (hdense : st.Dense) {path : List Nat}
    (htidy : ∀ st₁ b i, fileOpen path st = .ok (.ok (addr b i), st₁) → i < 1024 → Truncates st₁ b i 0) {r : Int}
    (hrun : fileRemove path st = .ok (r, st')) : Lasts S st st' := by
  unfold fileRemove at hrun
  obtain ⟨r₁, st₁, hopen, hrest⟩ := run_bind_eq_ok.mp hrun
  have hlasts : Lasts S st st₁ := fileOpen_lasts h hdense hopen
  obtain ⟨use₁, h₁, -, hfile⟩ := (fileOpen_runs h (Or.inr hdense) path).ok hopen
  cases r₁ with
  | error e =>
    cases hrest
    exact hlasts
  | ok f =>
    have hf := hfile f rfl
    obtain ⟨b, i, rfl, hat⟩ := hf.fileAt
    have hlt := hat.slot.lt
    have htidy₁ := htidy st₁ b i hopen (by omega)
    obtain ⟨_, st₂, htrunc, hrest⟩ := run_bind_eq_ok.mp hrest
    obtain ⟨_, st₃, hclear, hrest⟩ := run_bind_eq_ok.mp hrest
    obtain ⟨_, st₄, hflush, hrest⟩ := run_bind_eq_ok.mp hrest
    obtain ⟨_, st₅, hdir, hend⟩ := run_bind_eq_ok.mp hrest
    cases hend
    obtain ⟨use₂, h₂, hm₂, -⟩ := (fileTruncate_runs h₁ hat htidy₁).ok htrunc
    have hat₂ := hat.moves hm₂
    obtain ⟨use₃, h₃, hm₃, -⟩ := (clearName_runs h₂ hat₂).ok hclear
    have hat₃ := hat₂.moves hm₃
    obtain ⟨use₄, h₄, hm₄, -⟩ := (fileFlush_runs h₃ hat₃).ok hflush
    have hf₄ := ((hm₂.trans hm₃).trans hm₄).linked _ hf
    have hlasts₄ := ((hlasts.trans (fileTruncate_lasts h₁ hat htidy₁ htrunc)).trans
      (clearName_lasts h₂ hat₂ hclear)).trans (fileFlush_lasts h₃ hat₃ hflush)
    exact hlasts₄.trans (flushDir_lasts h₄ hf₄ hdir)

-- ---------------------------------------------------------------------------
-- The handlers
-- ---------------------------------------------------------------------------

variable {s s₁ s' : ServState} {whom : Nat} {α : Type}

/-- No block of a directory is made, and a table only together with a block of data. -/
def Complete (s : ServState) : Request → Prop
  | .open _ _ => s.fs.Dense
  | .map fileid offset => ∀ o b i, LooksUp s fileid o → o.file = addr b i → i < 1024 →
      (s.fs.isDir b i = true → ¬ s.fs.Hole b i (offset / BY2BLK)) ∧
        ∀ e st', fileGetBlock (addr b i) (offset / BY2BLK) s.fs = .ok (.error e, st') →
          st'.word b (i + W_INDIRECT) = s.fs.word b (i + W_INDIRECT)
  | .remove _ => s.fs.Dense
  | _ => True

/-- A reply leaves the files alone. -/
theorem ipcSend_fs {v : Int} {p : SentPage} (hrun : ipcSend whom v p s = .ok ((), s')) : s'.fs = s.fs := by
  rw [ipcSend_sent] at hrun
  cases hrun
  rfl

/-- A call of `fs.c`, and a reply. -/
theorem call_lasts {x : FsM α} {f : α → ServM Unit} (hx : ∀ a fs, x s.fs = .ok (a, fs) → Lasts S s.fs fs)
    (hf : ∀ a s₁ s₂, f a s₁ = .ok ((), s₂) → s₂.fs = s₁.fs) (hrun : (fsCall x >>= f) s = .ok ((), s')) :
    Lasts S s.fs s'.fs := by
  obtain ⟨a, s₁, hcall, hrest⟩ := run_bind_eq_ok.mp hrun
  obtain ⟨fs, hfs, rfl⟩ := fsCall_eq_ok hcall
  rw [hf _ _ _ hrest]
  exact hx a fs hfs

/-- A handler that looks the file up first. -/
theorem lookup_lasts {fileid : BitVec 32} {f : Open → ServM Unit}
    (hf : ∀ o, LooksUp s fileid o → f o s = .ok ((), s') → Lasts S s.fs s'.fs)
    (hrun : (openLookup fileid >>= fun r => match r with
      | .error r => ipcSend whom r .none
      | .ok o => f o) s = .ok ((), s')) : Lasts S s.fs s'.fs := by
  rcases openLookup_eq s fileid with ⟨hlook, -⟩ | ⟨o, hlook, hiff⟩
  · rw [run_bind hlook] at hrun
    rw [ipcSend_fs hrun]
    exact .refl S _
  · rw [run_bind hlook] at hrun
    exact hf o ((hiff o).mpr rfl) hrun

theorem Lasts.withMem (S : Nat → Prop) (st : FsState) (mem : Nat → Bool) : Lasts S st (st.withMem mem) :=
  ⟨rfl, rfl, id, fun _ hd => Or.inl hd, fun _ hd => hd⟩

theorem serveOpenFile_lasts (h : Layout s.fs use) (hdense : s.fs.Dense) {path : List Nat} {omode : BitVec 32}
    (hrun : serveOpenFile whom (some i) path omode s = .ok ((), s')) : Lasts S s.fs s'.fs := by
  unfold serveOpenFile at hrun
  obtain ⟨r, s₁, hcall, hrest⟩ := run_bind_eq_ok.mp hrun
  obtain ⟨fs, hopen, rfl⟩ := fsCall_eq_ok hcall
  have hlasts : Lasts S s.fs fs := fileOpen_lasts h hdense hopen
  obtain ⟨use₁, h₁, -, hfile⟩ := (fileOpen_runs h (Or.inr hdense) path).ok hopen
  cases r with
  | error e =>
    rw [ipcSend_fs hrest]
    exact hlasts
  | ok f =>
    obtain ⟨b, k, rfl, hat⟩ := (hfile f rfl).fileAt
    obtain ⟨ws, hcopy⟩ := copyFile_run h₁ hat
    obtain ⟨_, s₂, hset, hrest⟩ := run_bind_eq_ok.mp hrest
    cases hset
    obtain ⟨ws', s₃, hwords, hrest⟩ := run_bind_eq_ok.mp hrest
    obtain ⟨fs', hcopy', rfl⟩ := fsCall_eq_ok hwords
    obtain ⟨-, rfl⟩ := Prod.mk.inj (Except.ok.inj (hcopy.symm.trans hcopy'))
    obtain ⟨_, s₄, hset', hrest⟩ := run_bind_eq_ok.mp hrest
    cases hset'
    rw [ipcSend_fs hrest]
    exact hlasts

theorem openAlloc_lasts (h : Layout s.fs use) (hslot : OpenSlot s i) (hdense : s.fs.Dense) {r : Int} {o : Option Nat}
    (hrun : openAlloc s = .ok ((r, o), s₁)) :
    0 ≤ r ∧ (∃ j, o = some j) ∧ Lasts S s.fs s₁.fs ∧ Layout s₁.fs use ∧ s₁.fs.Dense := by
  obtain ⟨r', o', s₂, hrun', -, ⟨hr, j, rfl, -, hfs⟩ | ⟨-, hnone⟩⟩ :=
    openScan_allocs MAXOPEN 0 rfl (fun l hl => absurd hl (Nat.not_lt_zero l))
  · obtain ⟨hpair, rfl⟩ := Prod.mk.inj (Except.ok.inj (hrun'.symm.trans hrun))
    obtain ⟨rfl, rfl⟩ := Prod.mk.inj hpair
    rw [hfs]
    unfold openedFs
    split_ifs
    · have hready : Ready (s.fs.withMem fun n => s.fs.mem (n + 1)) :=
        h.ready.of_mapped rfl rfl (fun _ hb => hb) (Nat.le_refl _)
      have hfiles : SameFiles s.fs (s.fs.withMem fun n => s.fs.mem (n + 1)) use := .of_contents rfl
      exact ⟨hr, ⟨j, rfl⟩, .withMem S _ _, h.same hready rfl, hfiles.dense h hdense⟩
    · exact ⟨hr, ⟨j, rfl⟩, .refl S _, h, hdense⟩
  · exact absurd hslot (hnone i)

/-- A request that is fine and complete makes nothing stale but a block of data that its reply brings. -/
theorem serve_lasts {st : TabState} {serv : ServState} {req : Request} (h : Layout st.serv.fs use)
    (hfile : ∀ fileid o, LooksUp st.serv fileid o → ¬ NeverTaken st fileid → Linked st.serv.fs use o.file)
    (hfine : Fine st req) (hcomplete : Complete st.serv req)
    (hrun : serve whom req st.serv.unsent = .ok ((), serv)) :
    Lasts (fun d => lends st.serv req = false ∧ lastPage serv.sent = .block d) st.serv.fs serv.fs := by
  have h : Layout st.serv.unsent.fs use := h
  have hsend : ∀ (r : Int) s₁ s₂, (if r < 0 then ipcSend whom r .none else ipcSend whom 0 .none) s₁ = .ok ((), s₂) →
      s₂.fs = s₁.fs := by
    intro r s₁ s₂ hrun
    split_ifs at hrun
    · exact ipcSend_fs hrun
    · exact ipcSend_fs hrun
  cases req with
  | «open» path omode =>
    obtain ⟨⟨i, hslot⟩, -⟩ := hfine
    have hslot' : OpenSlot st.serv.unsent i := ⟨hslot.lt, hslot.first, hslot.page, hslot.fileid⟩
    obtain ⟨⟨r, o⟩, s₁, halloc, hrest⟩ := run_bind_eq_ok.mp hrun
    obtain ⟨hr, ⟨j, rfl⟩, hlasts, h₁, hdense⟩ := openAlloc_lasts h hslot' hcomplete halloc
    simp only [if_neg (Int.not_lt.mpr hr)] at hrest
    exact hlasts.trans (serveOpenFile_lasts h₁ hdense hrest)
  | map fileid offset =>
    refine lookup_lasts (s := st.serv.unsent) (fun o ho hrun => ?_) hrun
    have hlinked := hfile fileid o ho hfine.1
    obtain ⟨b, i, haddr, hat⟩ := hlinked.fileAt
    have hlt : i < 1024 := by
      have hlt := hat.slot.lt
      omega
    have htakes := hfine.2 o b i ho haddr hlt
    obtain ⟨hdir, hdone⟩ := hcomplete o b i ho haddr hlt
    obtain ⟨r, s₁, hcall, hrest⟩ := run_bind_eq_ok.mp hrun
    obtain ⟨fs, hget, rfl⟩ := fsCall_eq_ok hcall
    rw [haddr] at hget
    cases r with
    | error e =>
      rw [ipcSend_fs hrest]
      refine fileGetBlock_lasts h hat htakes hget (fun e' he => ?_) fun _ _ hd => nomatch hd
      cases he
      exact hdone e fs hget
    | ok d =>
      have hlends : lends st.serv (.map fileid offset) = st.serv.fs.isDir b i := by
        have ho' : o = st.serv.opentab (fileid.toNat % MAXOPEN) := ho.1
        show st.serv.fs.isDirFile (st.serv.opentab (fileid.toNat % MAXOPEN)).file = _
        rw [← ho', haddr]
        exact isDirFile_addr h hat.slot
      rw [ipcSend_fs hrest]
      refine fileGetBlock_lasts h hat htakes hget nofun fun hhole d' hd => ?_
      cases hd
      have hfalse : st.serv.fs.isDir b i = false := by
        by_contra htrue
        exact hdir (by simpa using htrue) hhole
      refine ⟨hlends.trans hfalse, ?_⟩
      cases hrest
      rfl
  | setSize fileid size =>
    refine lookup_lasts (s := st.serv.unsent) (fun o ho hrun => ?_) hrun
    have hlinked := hfile fileid o ho hfine.1
    obtain ⟨b, i, haddr, hat⟩ := hlinked.fileAt
    have htidy := hfine.2 o b i ho haddr (by have hlt := hat.slot.lt; omega)
    rw [haddr] at hlinked hrun
    exact call_lasts (fun _ _ hx => fileSetSize_lasts h hlinked hat htidy hx) hsend hrun
  | close fileid =>
    refine lookup_lasts (s := st.serv.unsent) (fun o ho hrun => ?_) hrun
    exact call_lasts (fun _ _ hx => fileClose_lasts h (hfile fileid o ho hfine) hx) (fun _ _ _ => ipcSend_fs) hrun
  | dirty fileid offset =>
    refine lookup_lasts (s := st.serv.unsent) (fun o ho hrun => ?_) hrun
    obtain ⟨b, i, haddr, hat⟩ := (hfile fileid o ho hfine).fileAt
    rw [haddr] at hrun
    exact call_lasts (fun _ _ hx => fileDirty_lasts h hat hx) hsend hrun
  | remove path =>
    exact call_lasts (s := st.serv.unsent) (fun _ _ hx => fileRemove_lasts h hcomplete hfine.2 hx)
      (fun _ _ _ => ipcSend_fs) hrun
  | sync =>
    exact call_lasts (s := st.serv.unsent) (fun _ _ hx => fsSync_lasts h hx) (fun _ _ _ => ipcSend_fs) hrun

end Mos.Fs
