import Mos.Fs.LayoutPath
import Mos.Fs.OpenTab

/-!
# MOS on RISC-V — requests on a file system that is laid out

The handlers of `fs/serv.c` keep the layout of the file system, if what they look up
is a file, a slot can be taken for `FSREQ_OPEN`, a table or a block of a directory is
not taken from the cached blocks, and no cached block of a directory is freed (`Fine`).
Then each sends one reply (`serve_runs`): an `Fd` page comes with a slot
whose `o_file` is a file, and the page of a block with a block of that file.
-/

namespace Mos.Fs

open Mos.Lib Mos.Kern

variable {st : FsState} {s s₁ s' : ServState} {use use₁ use' : Uses} {b i : Nat} {whom : Nat} {α : Type}

/-- `layoutContract`, for the server. -/
abbrev servContract : Contract ServState Uses Stop := layoutContract.on ServState.fs

theorem copyFile_run (h : Layout st use) (hf : FileAt st use b i) :
    ∃ ws, copyFile (addr b i) st = .ok (ws, st) := by
  unfold copyFile
  have hmap : ∀ ks : List Nat, (∀ k ∈ ks, k < 64) →
      ∃ ws, (ks.mapM fun k => loadAt (addr b i + 4 * k)) st = .ok (ws, st) := by
    intro ks hks
    induction ks with
    | nil => exact ⟨[], rfl⟩
    | cons k ks ih =>
      obtain ⟨ws, hrest⟩ := ih fun k hk => hks k (List.mem_cons_of_mem _ hk)
      have hload := h.loadField hf (hks k List.mem_cons_self)
      rw [List.mapM_cons, addr_add, run_bind hload, run_bind hrest]
      exact ⟨_, rfl⟩
  exact hmap _ fun k hk => List.mem_range.mp hk

theorem fsCall_runs {x : FsM α} {Q : α → FsState → Uses → Prop} (h : Runs layoutContract x s.fs use Q) :
    Runs servContract (fsCall x) s use fun a s' use' =>
      Q a s'.fs use' ∧ s'.opentab = s.opentab ∧ s'.sent = s.sent := by
  refine h.lift (fun a fs hx => ⟨{ s with fs := fs }, fsCall_ok hx, rfl, rfl, rfl⟩) fun e hx => ?_
  unfold fsCall
  rw [hx]
  rfl

-- ---------------------------------------------------------------------------
-- What a request may find
-- ---------------------------------------------------------------------------

/-- The file at `f` is a directory. -/
def FsState.isDirFile (st : FsState) (f : Nat) : Bool :=
  match locate (f + F_TYPE) with
  | .ok (b, i) => decide (st.contents b i = FTYPE_DIR)
  | .error _ => false

theorem isDirFile_addr (h : Layout st use) (hf : FileSlot use b i) :
    st.isDirFile (addr b i) = st.isDir b i := by
  obtain ⟨u, hu⟩ := h.slotUse hf
  have hlt := hf.lt
  have hw : i + W_TYPE < 1024 := by
    simp only [W_TYPE]
    omega
  unfold FsState.isDirFile
  rw [addr_type, locate_addr (h.lt hu) hw]
  rfl

/-- The request maps a page of a directory. -/
def lends (s : ServState) : Request → Bool
  | .map fileid _ => s.fs.isDirFile (s.opentab (fileid.toNat % MAXOPEN)).file
  | _ => false

/-- A slot can be taken, a file id is not the one of a slot that was never taken, no cached
block is taken for a table or a directory, and none of a directory is freed. -/
def Fine (s : TabState) : Request → Prop
  | .open _ _ => (∃ i, OpenSlot s.serv i) ∧ (FreshInv s.serv.fs ∨ s.serv.fs.Dense)
  | .map fileid offset => ¬ NeverTaken s fileid ∧ ∀ o b i, LooksUp s.serv fileid o → o.file = addr b i →
      i < 1024 → TakesFresh s.serv.fs b i (offset / BY2BLK)
  | .setSize fileid size => ¬ NeverTaken s fileid ∧ ∀ o b i, LooksUp s.serv fileid o → o.file = addr b i →
      i < 1024 → size < (s.serv.fs.word b (i + W_SIZE)).toNat → Truncates s.serv.fs b i size
  | .close fileid => ¬ NeverTaken s fileid
  | .dirty fileid _ => ¬ NeverTaken s fileid
  | .remove path => (FreshInv s.serv.fs ∨ s.serv.fs.Dense) ∧
      ∀ fs b i, fileOpen path s.serv.fs = .ok (.ok (addr b i), fs) → i < 1024 → Truncates fs b i 0
  | .sync => True

/-- What a request did to the table, and the page that the reply brings. -/
inductive Outcome (s s' : ServState) (use' : Uses) (isDir : Bool) : SentPage → Prop where
  | none (htab : s'.opentab = s.opentab) : Outcome s s' use' isDir .none
  | block {b : Nat} (htab : s'.opentab = s.opentab) (hb : (s'.fs.cache b).isSome)
      (huse : use' b = some (.content isDir)) : Outcome s s' use' isDir (.block b)
  | took {i : Nat} (htakes : Takes s s' i) : Outcome s s' use' isDir .none
  | gave {i : Nat} (htakes : Takes s s' i) (hfile : Linked s'.fs use' (s'.opentab i).file) :
      Outcome s s' use' isDir (.ff i)

/-- The server takes a request, and no reply was sent yet. -/
def ServState.unsent (s : ServState) : ServState := { s with sent := [] }

/-- One reply to `whom`, and what it brings. -/
def Replied (s : ServState) (whom : Nat) (isDir : Bool) (s' : ServState) (use' : Uses) : Prop :=
  ∃ v p, s'.sent = ⟨whom, v, p⟩ :: s.sent ∧ Outcome s s' use' isDir p

-- ---------------------------------------------------------------------------
-- The handlers
-- ---------------------------------------------------------------------------

variable {isDir : Bool}

/-- The reply of a handler that left the table alone. -/
theorem ipcSend_runs (h : Layout s₁.fs use₁) (htab : s₁.opentab = s.opentab) (hsent : s₁.sent = s.sent)
    (v : Int) : Runs servContract (ipcSend whom v .none) s₁ use₁ fun _ => Replied s whom isDir := by
  refine .of_ok (C := servContract) (ipcSend_sent s₁ whom v .none) h (.refl s₁.fs use₁)
    ⟨v, .none, ?_, .none htab⟩
  rw [hsent]

/-- A call of `fs.c`, and a reply with no page. -/
theorem call_runs {x : FsM α} {f : α → ServM Unit} {Q : α → FsState → Uses → Prop}
    (h : Runs layoutContract x s.fs use Q) (hf : ∀ a, ∃ v, f a = ipcSend whom v .none) :
    Runs servContract (fsCall x >>= f) s use fun _ => Replied s whom isDir := by
  refine (fsCall_runs h).bind ?_
  rintro a s₁ use₁ h₁ - ⟨-, htab, hsent⟩
  obtain ⟨v, hv⟩ := hf a
  rw [hv]
  exact ipcSend_runs h₁ htab hsent v

/-- A handler that looks the file up first. -/
theorem lookup_runs {fileid : BitVec 32} {f : Open → ServM Unit} (h : Layout s.fs use)
    (hf : ∀ o, LooksUp s fileid o → Runs servContract (f o) s use fun _ => Replied s whom isDir) :
    Runs servContract (openLookup fileid >>= fun r => match r with
      | .error r => ipcSend whom r .none
      | .ok o => f o) s use fun _ => Replied s whom isDir := by
  rcases openLookup_eq s fileid with ⟨hlook, -⟩ | ⟨o, hlook, hiff⟩
  · exact .bind_same hlook (ipcSend_runs h rfl rfl _)
  · exact .bind_same hlook (hf o ((hiff o).mpr rfl))

theorem Takes.congr (h : Takes s s₁ i) (htab : s'.opentab = s₁.opentab) : Takes s s' i :=
  ⟨h.lt, h.free, by rw [htab]; exact h.others, by rw [htab]; exact h.ref, by rw [htab]; exact h.fileid⟩

/-- The kernel's answers do not matter to the walk of a path. -/
theorem walks_withMem {st : FsState} (h : FreshInv st ∨ st.Dense) (hlayout : Layout st use) (mem : Nat → Bool) :
    FreshInv (st.withMem mem) ∨ (st.withMem mem).Dense := by
  refine h.imp (fun hfresh => hfresh.withMem mem) fun hdense => ?_
  have hfiles : SameFiles st (st.withMem mem) use := .of_contents rfl
  exact hfiles.dense hlayout hdense

theorem openAlloc_runs (h : Layout s.fs use) (hslot : OpenSlot s i) (hwalks : FreshInv s.fs ∨ s.fs.Dense) :
    Runs servContract openAlloc s use fun p s₁ _ => 0 ≤ p.1 ∧ (FreshInv s₁.fs ∨ s₁.fs.Dense) ∧
      ∃ j, p.2 = some j ∧ Takes s s₁ j ∧ s₁.sent = s.sent := by
  obtain ⟨r, o, s₁, hrun, hsent, ⟨hr, j, rfl, -, hfs⟩ | ⟨-, hnone⟩⟩ :=
    openScan_allocs MAXOPEN 0 rfl (fun l hl => absurd hl (Nat.not_lt_zero l))
  · obtain ⟨j', hj', htakes⟩ := (openScan_takes (Nat.le_refl _) hrun).resolve_left fun hc => nomatch hc.1
    cases hj'
    obtain ⟨hlayout, hmoves, hwalks₁⟩ : Layout s₁.fs use ∧ Moves s.fs use s₁.fs use ∧
        (FreshInv s₁.fs ∨ s₁.fs.Dense) := by
      rw [hfs]
      unfold openedFs
      split_ifs
      · have hready : Ready (s.fs.withMem fun n => s.fs.mem (n + 1)) :=
          h.ready.of_mapped rfl rfl (fun _ hb => hb) (Nat.le_refl _)
        exact ⟨h.same hready rfl, .same ⟨1, fun _ => rfl⟩ (fun _ hb => hb) rfl, walks_withMem hwalks h _⟩
      · exact ⟨h, .refl s.fs use, hwalks⟩
    exact .of_ok (C := servContract) hrun hlayout hmoves ⟨hr, hwalks₁, j, rfl, htakes, hsent⟩
  · exact absurd hslot (hnone i)

/-- `serve_open` after `open_alloc` took slot `i`. -/
theorem serveOpenFile_runs (h : Layout s₁.fs use₁) (hwalks : FreshInv s₁.fs ∨ s₁.fs.Dense) (htakes : Takes s s₁ i) (hsent : s₁.sent = s.sent)
    (path : List Nat) (omode : BitVec 32) :
    Runs servContract (serveOpenFile whom (some i) path omode) s₁ use₁ fun _ => Replied s whom isDir := by
  unfold serveOpenFile
  refine (fsCall_runs (fileOpen_runs h hwalks path)).bind ?_
  rintro r s₂ use₂ h₂ hm₂ ⟨hopen, htab, hsent₂⟩
  cases r with
  | error e =>
    refine .of_ok (C := servContract) (ipcSend_sent s₂ whom e .none) h₂ (.refl s₂.fs use₂)
      ⟨e, .none, ?_, .took (htakes.congr htab)⟩
    rw [hsent₂, hsent]
  | ok f =>
    have hf := hopen f rfl
    obtain ⟨b, k, rfl, hat⟩ := hf.fileAt
    obtain ⟨ws, hcopy⟩ := copyFile_run h₂ hat
    let s₃ : ServState := { s₂ with
      opentab := Function.update s₂.opentab i { s₂.opentab i with file := addr b k } }
    have hset : setOpen i (fun o => { o with file := addr b k }) s₂ = .ok ((), s₃) := rfl
    have hwords : fsCall (copyFile (addr b k)) s₃ = .ok (ws, s₃) := fsCall_ok hcopy
    refine .of_ok (C := servContract) ((run_bind hset _).trans ((run_bind hwords _).trans rfl)) h₂
      (.refl s₂.fs use₂) ⟨0, .ff i, ?_, .gave ⟨htakes.lt, htakes.free, fun j hj => ?_, ?_, ?_⟩ ?_⟩
    · show _ :: s₂.sent = _
      rw [hsent₂, hsent]
    · show Function.update s₃.opentab i _ j = _
      rw [Function.update_of_ne hj, ← htakes.others j hj, ← htab]
      exact Function.update_of_ne hj ..
    · simp only [Function.update_self, s₃]
      rw [htab]
      exact htakes.ref
    · simp only [Function.update_self, s₃]
      rw [htab]
      exact htakes.fileid
    · simp only [Function.update_self, s₃]
      exact hf

/-- A request that is fine has one reply, from a server that looks up files only. -/
theorem serve_runs {st : TabState} {req : Request} (h : Layout st.serv.fs use)
    (hfile : ∀ fileid o, LooksUp st.serv fileid o → ¬ NeverTaken st fileid → Linked st.serv.fs use o.file)
    (hfine : Fine st req) :
    Runs servContract (serve whom req) st.serv.unsent use
      fun _ => Replied st.serv.unsent whom (lends st.serv req) := by
  have h : Layout st.serv.unsent.fs use := h
  have hreply : ∀ r : Int, ∃ v, (if r < 0 then ipcSend whom r .none else ipcSend whom 0 .none) =
      ipcSend whom v .none := by
    intro r
    split_ifs
    · exact ⟨r, rfl⟩
    · exact ⟨0, rfl⟩
  cases req with
  | «open» path omode =>
    obtain ⟨⟨i, hslot⟩, hwalks⟩ := hfine
    have hslot' : OpenSlot st.serv.unsent i := ⟨hslot.lt, hslot.first, hslot.page, hslot.fileid⟩
    refine (openAlloc_runs h hslot' hwalks).bind ?_
    rintro ⟨r, o⟩ s₁ use₁ h₁ - ⟨hr, hwalks₁, j, ho, htakes, hsent⟩
    obtain rfl : o = some j := ho
    simp only [if_neg (Int.not_lt.mpr hr)]
    exact serveOpenFile_runs h₁ hwalks₁ htakes hsent path omode
  | map fileid offset =>
    refine lookup_runs h fun o ho => ?_
    have hlinked := hfile fileid o ho hfine.1
    obtain ⟨b, i, haddr, hat⟩ := hlinked.fileAt
    have htakes := hfine.2 o b i ho haddr (by have hlt := hat.slot.lt; omega)
    have hdir : lends st.serv (.map fileid offset) = st.serv.fs.isDir b i := by
      have ho' : o = st.serv.opentab (fileid.toNat % MAXOPEN) := ho.1
      show st.serv.fs.isDirFile (st.serv.opentab (fileid.toNat % MAXOPEN)).file = _
      rw [← ho', haddr]
      exact isDirFile_addr h hat.slot
    rw [haddr, hdir]
    refine (fsCall_runs (fileGetBlock_runs h hat htakes)).bind ?_
    rintro r s₁ use₁ h₁ - ⟨⟨-, -, hblock⟩, htab, hsent⟩
    cases r with
    | error e => exact ipcSend_runs h₁ htab hsent e
    | ok d =>
      obtain ⟨hd, huse⟩ := hblock d rfl
      refine .of_ok (C := servContract) (ipcSend_sent s₁ whom 0 (.block d)) h₁ (.refl s₁.fs use₁)
        ⟨0, .block d, ?_, .block htab hd huse⟩
      rw [hsent]
  | setSize fileid size =>
    refine lookup_runs h fun o ho => ?_
    have hlinked := hfile fileid o ho hfine.1
    obtain ⟨b, i, haddr, hat⟩ := hlinked.fileAt
    have htidy := hfine.2 o b i ho haddr (by have hlt := hat.slot.lt; omega)
    rw [haddr] at hlinked ⊢
    exact call_runs (fileSetSize_runs h hlinked hat htidy) hreply
  | close fileid =>
    refine lookup_runs h fun o ho => ?_
    exact call_runs (fileClose_runs h (hfile fileid o ho hfine)) fun _ => ⟨0, rfl⟩
  | dirty fileid offset =>
    refine lookup_runs h fun o ho => ?_
    obtain ⟨b, i, haddr, hat⟩ := (hfile fileid o ho hfine).fileAt
    rw [haddr]
    exact call_runs (fileDirty_runs h hat offset) hreply
  | remove path => exact call_runs (fileRemove_runs h hfine.1 path hfine.2) fun r => ⟨r, rfl⟩
  | sync => exact call_runs (fsSync_runs h) fun _ => ⟨0, rfl⟩

end Mos.Fs
