import Mos.Fs.CacheInv

/-!
# MOS on RISC-V — `fs_init`

What the server has cached when it starts to serve: the boot block, the super
block and the bitmap, all of them marked in use (`fsInit_ready`). While `fs_init`
works the bitmap is not looked at, and `super` is null for a time.
-/

namespace Mos.Fs

open Mos.Lib Mos.Kern

variable {st st' : FsState} {b c : Nat}

/-- Before the bitmap is read: `super` is set or null, and the blocks of `S` are
cached. -/
structure Early (set : Bool) (S : Nat → Prop) (st : FsState) : Prop where
  super : st.super = set
  bitmap : st.bitmap = false
  cached : ∀ c, (st.cache c).isSome ↔ S c

namespace Early

variable {set : Bool} {S T : Nat → Prop}

theorem mono (h : Early set S st) (hT : ∀ c, T c ↔ S c) : Early set T st :=
  ⟨h.super, h.bitmap, fun c => by rw [h.cached, hT]⟩

/-- A page is mapped. -/
theorem setPage (h : Early set S st) (mem : Nat → Bool) (b : Nat) (p : CachePage) :
    Early set (fun c => S c ∨ c = b) ((st.withMem mem).setPage b (some p)) := by
  refine ⟨h.super, h.bitmap, fun c => ?_⟩
  by_cases hc : c = b
  · rw [hc, FsState.setPage_self]
    simp
  · rw [FsState.setPage_of_ne _ hc, FsState.withMem_cache, h.cached]
    simp [hc]

theorem unmap (h : Early set S st) : Early set (fun c => S c ∧ c ≠ b) (st.setPage b none) := by
  refine ⟨h.super, h.bitmap, fun c => ?_⟩
  by_cases hc : c = b
  · rw [hc, FsState.setPage_self]
    simp
  · rw [FsState.setPage_of_ne _ hc, h.cached]
    simp [hc]

theorem readBlock (h : Early set S st) (hsuper : set = true → S 1) {isnew : Bool}
    (hrun : readBlock b st = .ok (isnew, st')) :
    Early set (fun c => S c ∨ c = b) st' ∧ ∀ c, S c → st'.words c = st.words c := by
  have hexists : checkExists b st = .ok ((), st) := by
    have hread := hrun
    unfold Fs.readBlock at hread
    obtain ⟨_, _, hc, -⟩ := run_bind_eq_ok.mp hread
    obtain ⟨rfl, -⟩ := checkExists_ok (fun hs => (h.cached 1).mpr (hsuper (h.super ▸ hs))) hc
    exact hc
  have hused : checkUsed b st = .ok ((), st) := by
    unfold checkUsed
    rw [run_get, h.bitmap]
    rfl
  rcases readBlock_fetch hexists hused hrun with ⟨hsome, rfl⟩ | ⟨hnone, mem, rfl⟩
  · have hb : S b := (h.cached b).mp hsome
    exact ⟨h.mono fun c => ⟨fun hc => hc.elim id fun hcb => hcb ▸ hb, Or.inl⟩, fun _ _ => rfl⟩
  · refine ⟨h.setPage mem b _, ?_⟩
    intro c hc
    have hne : c ≠ b := by
      rintro rfl
      rw [← h.cached, hnone] at hc
      cases hc
    rw [FsState.setPage_words, if_neg hne, withMem_words]

theorem load (h : Early set S st) (hb : S b) (i : Fin 1024) : load b i st = .ok (st.words b i, st) :=
  load_mapped ((h.cached b).mpr hb) i

theorem sNblocks (h : Early true S st) (h1 : S 1) : sNblocks st = .ok (st.words 1 1, st) :=
  sNblocks_mapped h.super ((h.cached 1).mpr h1)

theorem storeWord (h : Early set S st) (hb : S b) (i : Fin 1024) (w : BitVec 32) :
    store b i w st = .ok ((), st.storeWord b i w) ∧ Early set S (st.storeWord b i w) := by
  have hpage := (h.cached b).mpr hb
  refine ⟨store_mapped hpage i w, h.super, h.bitmap, fun c => ?_⟩
  rw [st.storeWord_isSome hpage, h.cached]

theorem storeBlock (h : Early set S st) (hb : S b) {ws : Block}
    (hrun : storeBlock b ws st = .ok ((), st')) : Early set S st' := by
  obtain ⟨mem, rfl⟩ := storeBlock_ok hrun
  exact (h.setPage mem b ⟨ws, true⟩).mono fun c =>
    ⟨Or.inl, fun hc => hc.elim id fun hcb => hcb ▸ hb⟩

theorem writeBlock (h : Early set S st) (hrun : writeBlock b st = .ok ((), st')) :
    Early set S st' := by
  obtain ⟨-, rfl⟩ := writeBlock_ok hrun
  exact ⟨h.super, h.bitmap, h.cached⟩

/-- `strcpy` to the super block. -/
theorem smash (h : Early set S st) (h1 : S 1) : ∃ st', smashSuper st = .ok ((), st') ∧ Early set S st' := by
  unfold smashSuper
  obtain ⟨hs, h'⟩ := h.storeWord h1 0 0x53504f4f#32
  rw [run_bind hs, run_bind (h'.load h1 1)]
  obtain ⟨hs', h''⟩ := h'.storeWord h1 1
    (((st.storeWord 1 0 0x53504f4f#32).words 1 1 &&& 0xff000000#32) ||| 0x000a21#32)
  exact ⟨_, hs', h''⟩

theorem isSmashed (h : Early set S st) (h1 : S 1) : ∃ r, superIsSmashed st = .ok (r, st) := by
  unfold superIsSmashed
  rw [run_bind (h.load h1 0), run_bind (h.load h1 1)]
  exact ⟨_, rfl⟩

end Early

theorem readSuper_ok {disk : Nat → Block} {mem : Nat → Bool}
    (hrun : readSuper (emptyCache disk mem) = .ok ((), st')) : Early true (· = 1) st' := by
  have hempty : Early false (fun _ => False) (emptyCache disk mem) :=
    ⟨rfl, rfl, fun c => ⟨nofun, False.elim⟩⟩
  unfold readSuper at hrun
  obtain ⟨isnew, st₁, hread, hrun⟩ := run_bind_eq_ok.mp hrun
  obtain ⟨h₁, -⟩ := hempty.readBlock nofun hread
  obtain ⟨_, st₂, hset, hrun⟩ := run_bind_eq_ok.mp hrun
  cases hset
  have h₂ : Early true (· = 1) { st₁ with super := true } :=
    ⟨rfl, h₁.bitmap, fun c => (h₁.cached c).trans (by simp)⟩
  rw [run_bind (h₂.load rfl 0)] at hrun
  obtain ⟨_, st₃, hmagic, hrun⟩ := run_bind_eq_ok.mp hrun
  obtain ⟨-, rfl⟩ := userPanicIf_ok hmagic
  rw [run_bind (h₂.sNblocks rfl)] at hrun
  obtain ⟨-, rfl⟩ := userPanicIf_ok hrun
  exact h₂

/-- `check_write_block` ends with the boot block and the super block cached. -/
theorem checkWriteBlock_ok (h : Early true (· = 1) st) (hrun : checkWriteBlock st = .ok ((), st')) :
    Early true (· < 2) st' := by
  unfold checkWriteBlock at hrun
  obtain ⟨_, st₁, hset, hrun⟩ := run_bind_eq_ok.mp hrun
  cases hset
  have h₁ : Early false (· = 1) { st with super := false } := ⟨rfl, h.bitmap, h.cached⟩
  -- the boot block is read, and the super block copied to it
  obtain ⟨isnew, st₂, hread, hrun⟩ := run_bind_eq_ok.mp hrun
  obtain ⟨h₂, -⟩ := h₁.readBlock nofun hread
  obtain ⟨p, -, -, hacc⟩ := access_mapped ((h₂.cached 1).mpr (Or.inl rfl))
  rw [run_bind hacc] at hrun
  obtain ⟨_, st₃, hcopy, hrun⟩ := run_bind_eq_ok.mp hrun
  have h₃ := h₂.storeBlock (Or.inr rfl) hcopy
  -- the super block is smashed, written and dropped
  obtain ⟨st₄, hsmash, h₄⟩ := h₃.smash (Or.inl rfl)
  rw [run_bind hsmash] at hrun
  obtain ⟨_, st₅, hwrite, hrun⟩ := run_bind_eq_ok.mp hrun
  have h₅ := h₄.writeBlock hwrite
  obtain ⟨_, st₆, hunmap, hrun⟩ := run_bind_eq_ok.mp hrun
  cases hunmap
  have h₆ : Early false (· = 0) (st₅.setPage 1 none) := h₅.unmap.mono fun c => by omega
  -- it is read again and restored
  obtain ⟨isnew', st₇, hread', hrun⟩ := run_bind_eq_ok.mp hrun
  obtain ⟨h₇, -⟩ := h₆.readBlock nofun hread'
  obtain ⟨r, hr⟩ := h₇.isSmashed (Or.inr rfl)
  rw [run_bind hr] at hrun
  obtain ⟨_, st₈, hassert, hrun⟩ := run_bind_eq_ok.mp hrun
  obtain ⟨-, rfl⟩ := userAssert_ok hassert
  obtain ⟨p', -, -, hacc'⟩ := access_mapped ((h₇.cached 0).mpr (Or.inl rfl))
  rw [run_bind hacc'] at hrun
  obtain ⟨_, st₉, hcopy', hrun⟩ := run_bind_eq_ok.mp hrun
  have h₉ := h₇.storeBlock (Or.inr rfl) hcopy'
  obtain ⟨_, st₁₀, hwrite', hrun⟩ := run_bind_eq_ok.mp hrun
  have h₁₀ := h₉.writeBlock hwrite'
  cases hrun
  exact ⟨rfl, h₁₀.bitmap, fun c => (h₁₀.cached c).trans (by omega)⟩

/-- The bitmap blocks are read, and no reserved block is marked free. -/
theorem readBitmap_ok (h : Early true (· < 2) st) (hrun : readBitmap st = .ok ((), st')) :
    Ready st' ∧ ∀ c, (st'.cache c).isSome → ¬ st'.isFree c := by
  unfold readBitmap at hrun
  rw [run_bind (h.sNblocks (by decide))] at hrun
  obtain ⟨_, st₁, hloop, hrun⟩ := run_bind_eq_ok.mp hrun
  have h₁ := forM_range_inv (fun i s => Early true (· < i + 2) s ∧ s.words 1 = st.words 1) _ ⟨h, rfl⟩
    (by
      intro i _ s s' hI hbody
      obtain ⟨isnew, s₁, hread, hend⟩ := run_bind_eq_ok.mp hbody
      cases hend
      obtain ⟨hE, hwords⟩ := hI.1.readBlock (fun _ => by omega) hread
      refine ⟨hE.mono fun c => by omega, ?_⟩
      rw [hwords 1 (by omega), hI.2]) hloop
  obtain ⟨_, st₂, hset, hrun⟩ := run_bind_eq_ok.mp hrun
  have hst₂ : st₂ = { st₁ with bitmap := true } := by
    cases hset
    rfl
  have hcached : ∀ c, (st₂.cache c).isSome ↔ c < st.nblocks / BIT2BLK + 1 + 2 := by
    rw [hst₂]
    exact h₁.1.cached
  have hn : st₂.nblocks = st.nblocks := by
    rw [hst₂]
    exact congrArg (fun ws : Block => (ws 1).toNat) h₁.2
  have hready : Ready st₂ := by
    refine ⟨by rw [hst₂]; exact h₁.1.super, by rw [hst₂], (hcached 1).mpr (Nat.lt_of_lt_of_le
      (by decide) (Nat.le_add_left 2 _)), ?_⟩
    intro b hb
    rw [hn] at hb
    have := Nat.div_le_div_right (c := BIT2BLK) (Nat.le_of_lt hb)
    exact (hcached _).mpr (by omega)
  have hused : ∀ {c : Nat} {f : Unit → FsM Unit} {s' : FsState},
      (blockIsFree c >>= fun r => userAssert (!r) >>= f) st₂ = .ok ((), s') →
        ¬ st₂.isFree c ∧ f () st₂ = .ok ((), s') := by
    intro c f s' hbody
    rw [run_bind (hready.blockIsFree c)] at hbody
    obtain ⟨_, s₁, hassert, hrest⟩ := run_bind_eq_ok.mp hbody
    obtain ⟨hfree, rfl⟩ := userAssert_ok hassert
    exact ⟨by simpa using hfree, hrest⟩
  obtain ⟨hfree₀, hrun⟩ := hused hrun
  obtain ⟨hfree₁, hrun⟩ := hused hrun
  have h₃ := forM_range_inv (fun i s => s = st₂ ∧ ∀ j < i, ¬ st₂.isFree (j + 2)) _
    ⟨rfl, nofun⟩ (by
      rintro i _ s s' ⟨rfl, hI⟩ hbody
      rw [run_bind (hready.blockIsFree _)] at hbody
      obtain ⟨hfree, rfl⟩ := userAssert_ok hbody
      refine ⟨rfl, fun j hj => ?_⟩
      rcases Nat.lt_succ_iff_lt_or_eq.mp hj with hlt | rfl
      · exact hI j hlt
      · simpa using hfree) hrun
  obtain ⟨rfl, hblocks⟩ := h₃
  refine ⟨hready, ?_⟩
  intro c hc
  have hlt := (hcached c).mp hc
  match c, hlt with
  | 0, _ => exact hfree₀
  | 1, _ => exact hfree₁
  | c + 2, hlt => exact hblocks c (Nat.lt_of_add_lt_add_right hlt)

theorem fsInit_ready {disk : Nat → Block} {mem : Nat → Bool}
    (hrun : fsInit (emptyCache disk mem) = .ok ((), st')) :
    Ready st' ∧ ∀ c, (st'.cache c).isSome → ¬ st'.isFree c := by
  unfold fsInit at hrun
  obtain ⟨_, st₁, hread, hrun⟩ := run_bind_eq_ok.mp hrun
  obtain ⟨_, st₂, hcheck, hrun⟩ := run_bind_eq_ok.mp hrun
  exact readBitmap_ok (checkWriteBlock_ok (readSuper_ok hread) hcheck) hrun

end Mos.Fs
