import Mos.Fs.Restart
import Mos.User.FsLife

/-!
# MOS on RISC-V — the file server ends, and is started again

A server that serves any clients in any order syncs the disk for one of them (`FSREQ_SYNC`)
and is gone. The next server on the same disk finds the tree of files as it was.

Main results:

* `LifeReach.lasts` — in a run whose steps are durable, only what a client was lent is stale;
* `sync_restarts` — the next server starts, and each path leads where it led;
* `dirty_saved` — a block for which a client had a reply to `FSREQ_DIRTY` is saved.
-/

namespace Mos.User

open Mos.Fs Mos.Kern Mos.Lib

variable {s₀ s s' : FsLife} {use use' : Uses}

-- ---------------------------------------------------------------------------
-- What is stale
-- ---------------------------------------------------------------------------

/-- A good step; a request makes no block of a directory, and a table only together with
a block of data. -/
def FsLife.Durable (s : FsLife) (a : LifeAct) : Prop :=
  s.Good a ∧ ∀ whom req, a = .request whom req → Complete s.tab.serv req

/-- Only pages that clients store to have become stale. -/
def FsLife.Kept (s₀ s : FsLife) : Prop := Lasts (fun d => s.lent d = some false) s₀.tab.serv.fs s.tab.serv.fs

/-- What is lent stays so. -/
theorem lend_false {lent : Nat → Option Bool} {isDir : Bool} {p : SentPage} {d : Nat} (hd : lent d = some false)
    (hp : p = .block d → isDir = false) : lend lent isDir p d = some false := by
  cases p with
  | none => exact hd
  | ff i => exact hd
  | block b =>
    show Function.update lent b (some isDir) d = some false
    by_cases hdb : d = b
    · subst hdb
      rw [Function.update_self, hp rfl]
    · rw [Function.update_of_ne hdb]
      exact hd

namespace FsLife.Inv

variable (h : FsLife.Inv s₀ s use)
include h

/-- A handler. -/
theorem kept_request {s₁ : FsLife} {whom : Nat} {req : Request} (hfine : Fine s.tab req) (hcomplete : Complete s.tab.serv req)
    (hkept : FsLife.Kept s₁ s) : FsLife.Kept s₁ (s.request whom req) := by
  have hfile : ∀ fileid o, LooksUp s.tab.serv fileid o → ¬ NeverTaken s.tab fileid →
      Linked s.tab.serv.fs use o.file := fun fileid o ho hn => h.looksUp ho hn
  unfold FsLife.Kept FsLife.request
  cases hserve : serve whom req s.tab.serv.unsent with
  | error e => exact hkept
  | ok p =>
    obtain ⟨_, serv⟩ := p
    obtain ⟨use', -, hmoves, v, page, hsent, hout⟩ := (serve_runs h.layout hfile hfine).ok hserve
    have hmoves : Moves s.tab.serv.fs use serv.fs use' := hmoves
    have hpage : lastPage serv.sent = page := by
      rw [hsent]
      rfl
    -- a block that was lent is of no directory now
    have hlend : ∀ d, s.lent d = some false →
        lend s.lent (lends s.tab.serv req) (lastPage serv.sent) d = some false := by
      intro d hd
      refine lend_false hd fun hblock => ?_
      rw [hpage] at hblock
      subst hblock
      obtain ⟨hcached, hloose⟩ := h.lent d hd
      have hloose' := (hmoves.page d hcached).2.loose hloose
      cases hout with
      | block _ _ huse =>
        by_contra hdir
        rw [Bool.not_eq_false] at hdir
        rw [hdir] at huse
        exact not_loose huse nofun hloose'
    have hlasts := serve_lasts h.layout hfile hfine hcomplete hserve
    rw [(served_false s.tab serv).1]
    refine (hkept.mono hlend).trans (hlasts.mono ?_)
    rintro d ⟨hregular, hblock⟩
    rw [hblock, hregular]
    exact Function.update_self ..

/-- A client. -/
theorem kept_store {s₁ : FsLife} {b : Nat} (hb : s.lent b = some false) (i : Fin 1024) (w : BitVec 32)
    (hkept : FsLife.Kept s₁ s) : FsLife.Kept s₁ (s.setFs (s.tab.serv.fs.clientStore b i w)) := by
  obtain ⟨hcached, hloose⟩ := h.lent b hb
  have hsystem : use b ≠ some .system := fun heq => not_loose heq nofun hloose
  have hne : b ≠ 1 := by
    rintro rfl
    exact hsystem h.layout.superUse
  obtain ⟨j, hj, rfl⟩ : ∃ j < 1024, Fin.ofNat 1024 j = i :=
    ⟨i.val, i.isLt, Fin.ext (Nat.mod_eq_of_lt i.isLt)⟩
  have hplain := h.layout.plain hcached hj (Or.inr hsystem)
  exact hkept.trans (clientStore_lasts hplain hne hb w)

end FsLife.Inv

theorem FsLife.received_fs (s : FsLife) (r : Reply) (todo : List Reply) (stop : Option Stop) :
    (s.received r todo stop).tab.serv.fs = s.tab.serv.fs ∧ (s.received r todo stop).lent = s.lent := by
  refine ⟨?_, rfl⟩
  unfold FsLife.received
  cases r.page with
  | none => rfl
  | ff i => rfl
  | block b => rfl

/-- A step of a client or of the server that is no handler and no store leaves the disk and the cache. -/
theorem FsLife.step_fs {a : LifeAct} (hstep : s.step a = some s') (hreq : ∀ whom req, a ≠ .request whom req)
    (hstore : ∀ b i w, a ≠ .store b i w) : s'.tab.serv.fs = s.tab.serv.fs ∧ s'.lent = s.lent := by
  cases a with
  | request whom req => exact absurd rfl (hreq whom req)
  | reply mem =>
    simp only [FsLife.step] at hstep
    split at hstep
    · rename_i r todo stop _
      cases hstep
      unfold FsLife.reply
      dsimp only
      split_ifs
      · exact ⟨rfl, rfl⟩
      · exact s.received_fs r todo stop
      · exact ⟨rfl, rfl⟩
    · cases hstep
  | next =>
    simp only [FsLife.step] at hstep
    split at hstep
    · cases hstep
      exact ⟨rfl, rfl⟩
    · cases hstep
      exact ⟨rfl, rfl⟩
    · cases hstep
  | env e env =>
    cases hstep
    exact ⟨rfl, rfl⟩
  | share i =>
    simp only [FsLife.step] at hstep
    split_ifs at hstep
    cases hstep
    exact ⟨rfl, rfl⟩
  | drop i =>
    simp only [FsLife.step] at hstep
    split_ifs at hstep
    cases hstep
    exact ⟨rfl, rfl⟩
  | store b i w => exact absurd rfl (hstore b i w)

theorem FsLife.Kept.step {s₁ : FsLife} (h : FsLife.Inv s₀ s use) {a : LifeAct} (hdurable : s.Durable a) (hstep : s.step a = some s')
    (hkept : FsLife.Kept s₁ s) : FsLife.Kept s₁ s' := by
  obtain ⟨hgood, hcomplete⟩ := hdurable
  cases a with
  | request whom req =>
    simp only [FsLife.step] at hstep
    split at hstep
    · split_ifs at hstep
      cases hstep
      exact h.kept_request hgood (hcomplete whom req rfl) hkept
    · cases hstep
  | store b i w =>
    simp only [FsLife.step] at hstep
    split_ifs at hstep
    cases hstep
    exact h.kept_store hgood i w hkept
  | _ =>
    obtain ⟨hfs, hlent⟩ := FsLife.step_fs hstep (fun _ _ heq => by cases heq) fun _ _ _ heq => by cases heq
    unfold FsLife.Kept
    rw [hfs, hlent]
    exact hkept

theorem LifeReach.mono {P Q : FsLife → LifeAct → Prop} (hPQ : ∀ s a, P s a → Q s a) (h : LifeReach P s₀ s) :
    LifeReach Q s₀ s := by
  induction h with
  | refl => exact .refl
  | step _ hgood hstep ih => exact .step ih (hPQ _ _ hgood) hstep

theorem LifeReach.trans {P : FsLife → LifeAct → Prop} {s₁ : FsLife} (h : LifeReach P s₀ s₁) (h' : LifeReach P s₁ s) :
    LifeReach P s₀ s := by
  induction h' with
  | refl => exact h
  | step _ hgood hstep ih => exact .step ih hgood hstep

theorem LifeReach.durable_inv (h₀ : FsLife.Start s₀) (h : LifeReach FsLife.Durable s₀ s) :
    ∃ use, FsLife.Inv s₀ s use :=
  (h.mono fun _ _ hdurable => hdurable.1).inv h₀

theorem FsLife.durable_sync (s : FsLife) (whom : Nat) : s.Durable (.request whom .sync) :=
  ⟨trivial, fun _ _ heq => by cases heq; trivial⟩

/-- In a durable run, only what clients were lent becomes stale. -/
theorem LifeReach.lasts {s₁ : FsLife} (h₀ : FsLife.Start s₀) (h₁ : LifeReach FsLife.Durable s₀ s₁)
    (h : LifeReach FsLife.Durable s₁ s) : FsLife.Kept s₁ s := by
  induction h with
  | refl => exact .refl _ _
  | step hreach hdurable hstep ih =>
    obtain ⟨use, hinv⟩ := (h₁.trans hreach).durable_inv h₀
    exact ih.step hinv hdurable hstep

-- ---------------------------------------------------------------------------
-- The next server
-- ---------------------------------------------------------------------------

/-- The next server sees the tree of files that the old one had, and the data of pages that were dirty. -/
structure Resumes (old new : FsState) : Prop where
  start : FsLife.Start (.init new)
  isFree : ∀ c, new.isFree c ↔ old.isFree c
  followed : ∀ c, Followed old c → new.contents c = old.contents c
  files : ∀ b i, InTree new b i ↔ InTree old b i
  blocks : ∀ b i n d, InTree old b i → (new.Names b i n d ↔ old.Names b i n d)
  saved : ∀ d < old.nblocks, d ≠ 0 → (∀ p, old.cache d = some p → p.dirty = true) → new.contents d = old.contents d

/-- After `FSREQ_SYNC`, a block is as on the disk, or its page is stale. -/
theorem FsLife.Inv.sync_back (h : FsLife.Inv s₀ s use) {whom : Nat} (hstep : s.step (.request whom .sync) = some s') :
    ∀ d < s'.tab.serv.fs.nblocks, Back s'.tab.serv.fs d := by
  have hready : Ready s.tab.serv.unsent.fs := h.layout.ready
  obtain ⟨fs, hsync⟩ := fsSync_run hready
  obtain ⟨-, -, hcache, hback⟩ := fsSync_back hready hsync
  have hn : fs.nblocks = s.tab.serv.unsent.fs.nblocks := by
    unfold FsState.nblocks FsState.words
    rw [hcache]
  obtain ⟨serv, hserve, hfs⟩ : ∃ serv, serve whom .sync s.tab.serv.unsent = .ok ((), serv) ∧ serv.fs = fs :=
    ⟨_, run_bind (fsCall_ok hsync) _, rfl⟩
  simp only [FsLife.step] at hstep
  split at hstep
  · split_ifs at hstep
    cases hstep
    have hrequest : (s.request whom .sync).tab.serv.fs = fs := by
      unfold FsLife.request
      rw [hserve]
      exact (congrArg ServState.fs (served_false s.tab serv).1).trans hfs
    rw [hrequest, hn]
    exact hback
  · cases hstep

/-- **A restart.** The server has run with any clients, and syncs the disk for one of them. If it ends
then, another that starts on the disk, with pages for the super block and the bitmap, sees the same tree of
files, and each path leads where it led, unless the kernel has no page left for a block. -/
theorem sync_restarts (h₀ : FsLife.Start s₀) (hrest : s₀.tab.serv.fs.nblocks % BIT2BLK ≠ 0)
    (h : LifeReach FsLife.Durable s₀ s) {whom : Nat} (hstep : s.step (.request whom .sync) = some s')
    {mem : Nat → Bool} (hmem : ∀ n < s'.tab.serv.fs.nblocks / BIT2BLK + 4, mem n = true) :
    ∃ fs, fsInit (emptyCache s'.tab.serv.fs.disk mem) = .ok ((), fs) ∧ Resumes s'.tab.serv.fs fs ∧
      (DirTree s'.tab.serv.fs → ∀ path, (∀ c ∈ path, c ≠ 0) →
        (∃ fs', walkPath path fs = .ok (s'.tab.serv.fs.resolve none 1 2 (parts slash path), fs')) ∨
          walkPath path fs = .error .kernelPanic ∧ ∃ n, mem n = false) := by
  obtain ⟨disk, mem₀, hinit₀⟩ := h₀.init
  obtain ⟨hfresh, hmagic, hboot⟩ := fsInit_rests hinit₀
  obtain ⟨_, hinv⟩ := h.durable_inv h₀
  have hback := hinv.sync_back hstep
  have hreach : LifeReach FsLife.Durable s₀ s' := h.step (s.durable_sync whom) hstep
  have hkept := LifeReach.lasts h₀ .refl hreach
  obtain ⟨use, hinv'⟩ := hreach.durable_inv h₀
  -- what is stale is lent to clients, and so of data
  have hstale : ∀ d, s'.tab.serv.fs.Stale d → Loose (Function.update use 0 none d) := by
    intro d hd
    have hlent := (hkept.stale d hd).resolve_left (hfresh d)
    by_cases hzero : d = 0
    · rw [hzero, Function.update_self]
      exact Or.inl rfl
    · rw [Function.update_of_ne hzero]
      exact (hinv'.lent d hlent).2
  have hrests : Rests s'.tab.serv.fs (Function.update use 0 none) :=
    { layout := hinv'.layout.noBoot
      stale := hstale
      magic := hkept.magic.trans hmagic
      boot := Or.inl (Function.update_self ..)
      bootUsed := fun hf => hboot (hkept.boot hf)
      rest := by rw [hkept.size]; exact hrest }
  obtain ⟨fs, hinit, hsame, k, hasked⟩ := hrests.restart hback hmem
  have hlayout := hrests.layout
  refine ⟨fs, hinit, ⟨⟨⟨_, _, hinit⟩, ⟨_, hsame.layout⟩, rfl, rfl, fun _ => rfl⟩, hsame.isFree,
    fun c hc => hsame.contents c (hlayout.followed hc), fun b i => hsame.inTree hlayout,
    fun b i n d hf => hsame.names hlayout (hf.found.slot hlayout) n d, fun d hd hzero hdirty => ?_⟩,
    fun htree path hpath => ?_⟩
  · refine hsame.saved d hd hzero ?_
    rintro ⟨p, hp, hclean, -⟩
    rw [hdirty p hp] at hclean
    cases hclean
  refine (hsame.walkPath hlayout htree hpath).imp_right fun ⟨hstop, n, hnone⟩ => ⟨hstop, n + k, ?_⟩
  exact (hasked n).symm.trans hnone

/-- After `FSREQ_DIRTY` with the reply 0, the page of the block is dirty. -/
theorem FsLife.Inv.dirty_replied (h : FsLife.Inv s₀ s use) {whom : Nat} {fileid : BitVec 32} {offset : Nat}
    (hgood : s.Good (.request whom (.dirty fileid offset)))
    (hstep : s.step (.request whom (.dirty fileid offset)) = some s') (hpc : s'.pc = .reply [⟨whom, 0, .none⟩] none) :
    ∃ o b i d, LooksUp s.tab.serv fileid o ∧ o.file = addr b i ∧ FileAt s.tab.serv.fs use b i ∧
      s.tab.serv.fs.Names b i (offset / BY2BLK) d ∧ s'.tab.serv.fs.isDirty d = true := by
  simp only [FsLife.step] at hstep
  split at hstep
  · split_ifs at hstep
    cases hstep
    unfold FsLife.request at hpc ⊢
    cases hserve : serve whom (.dirty fileid offset) s.tab.serv.unsent with
    | error e =>
      rw [hserve] at hpc
      cases hpc
    | ok p =>
      obtain ⟨_, serv⟩ := p
      simp only [hserve] at hpc ⊢
      have hsent : serv.sent = [⟨whom, 0, .none⟩] := by
        have hrev := LifePc.reply.inj hpc
        rw [← List.reverse_reverse serv.sent, hrev.1]
        rfl
      have hvalue : ∀ {v : Int} {s₁ : ServState}, ipcSend whom v .none s₁ = .ok ((), serv) → v = 0 := by
        intro v s₁ hrun
        rw [ipcSend_sent] at hrun
        cases hrun
        exact congrArg Reply.value (List.cons.inj hsent).1
      have hrun : serveDirty whom fileid offset s.tab.serv.unsent = .ok ((), serv) := hserve
      unfold serveDirty at hrun
      rcases openLookup_eq s.tab.serv.unsent fileid with ⟨hlook, -⟩ | ⟨o, hlook, hiff⟩
      · rw [run_bind hlook] at hrun
        exact absurd (hvalue hrun) (by decide)
      · have ho : LooksUp s.tab.serv fileid o := (hiff o).mpr rfl
        obtain ⟨b, i, haddr, hat⟩ := (h.looksUp ho hgood).fileAt
        rw [run_bind hlook] at hrun
        obtain ⟨r, s₁, hcall, hrest⟩ := run_bind_eq_ok.mp hrun
        obtain ⟨fs, hfs, rfl⟩ := fsCall_eq_ok hcall
        rw [haddr] at hfs
        have hr : ¬ r < 0 := by
          intro hneg
          rw [if_pos hneg] at hrest
          have hzero := hvalue hrest
          omega
        obtain ⟨d, hnames, hdirty⟩ := fileDirty_dirties h.layout hat hfs hr
        rw [if_neg hr] at hrest
        refine ⟨o, b, i, d, ho, haddr, hat, hnames, ?_⟩
        rw [(served_false s.tab serv).1, ipcSend_fs hrest]
        exact hdirty
  · cases hstep

/-- **What a client says is dirty, is saved.** The server has replied 0 to `FSREQ_DIRTY` for a block of an open
file. Whatever else it does, when it syncs the disk later and another server starts on that, the block is as
it was at that time, with all that was stored to it since. -/
theorem dirty_saved {s₁ s₂ : FsLife} (h₀ : FsLife.Start s₀) (hrest : s₀.tab.serv.fs.nblocks % BIT2BLK ≠ 0)
    (h₁ : LifeReach FsLife.Durable s₀ s₁) {whom : Nat} {fileid : BitVec 32} {offset : Nat}
    (hdurable : s₁.Durable (.request whom (.dirty fileid offset)))
    (hdirty : s₁.step (.request whom (.dirty fileid offset)) = some s₂) (hpc : s₂.pc = .reply [⟨whom, 0, .none⟩] none)
    (h₂ : LifeReach FsLife.Durable s₂ s) {whom' : Nat} (hstep : s.step (.request whom' .sync) = some s')
    {mem : Nat → Bool} (hmem : ∀ n < s'.tab.serv.fs.nblocks / BIT2BLK + 4, mem n = true) :
    ∃ o b i d fs, LooksUp s₁.tab.serv fileid o ∧ o.file = addr b i ∧ i < 1024 ∧
      s₁.tab.serv.fs.Names b i (offset / BY2BLK) d ∧
      fsInit (emptyCache s'.tab.serv.fs.disk mem) = .ok ((), fs) ∧ fs.contents d = s'.tab.serv.fs.contents d := by
  obtain ⟨use, hinv⟩ := h₁.durable_inv h₀
  obtain ⟨o, b, i, d, ho, haddr, hat, hnames, hpage⟩ := hinv.dirty_replied hdurable.1 hdirty hpc
  have hreach₂ : LifeReach FsLife.Durable s₀ s₂ := h₁.step hdurable hdirty
  have hfrom₂ : LifeReach FsLife.Durable s₂ s' := h₂.step (s.durable_sync whom') hstep
  have hstart : FsLife.Kept s₁ s₂ := LifeReach.lasts h₀ h₁ (.step .refl hdurable hdirty)
  have hkept : FsLife.Kept s₂ s' := LifeReach.lasts h₀ hreach₂ hfrom₂
  have hlt : d < s'.tab.serv.fs.nblocks := by
    rw [hkept.size, hstart.size]
    exact (hinv.layout.inUse d _ (hinv.layout.names_use hat.slot hnames)).1
  have hzero : d ≠ 0 := by
    obtain ⟨b', j, -, hword, rfl⟩ := hnames
    exact fun heq => hword (BitVec.eq_of_toNat_eq heq)
  obtain ⟨fs, hinit, hresumes, -⟩ := sync_restarts h₀ hrest (hreach₂.trans h₂) hstep hmem
  have hi : i < 1024 := by
    have hslot := hat.slot.lt
    omega
  refine ⟨o, b, i, d, fs, ho, haddr, hi, hnames, hinit, hresumes.saved d hlt hzero fun p hp => ?_⟩
  have hlast := hkept.dirty d hpage
  unfold FsState.isDirty at hlast
  rw [hp] at hlast
  exact hlast

/-- A root directory without files. -/
theorem dirTree_empty {st : FsState} (h : Layout st use) (hsize : st.dirBlocks 1 2 = 0) : DirTree st := by
  have hroot : ∀ {b i}, InTree st b i → b = 1 ∧ i = 2 := by
    intro b i hf
    induction hf with
    | root => exact ⟨rfl, rfl⟩
    | entry _ _ hn _ _ _ ih =>
      obtain ⟨rfl, rfl⟩ := ih
      omega
  have hnone : ∀ {b i n}, InTree st b i → ¬ n < st.dirBlocks b i := by
    intro b i n hf hn
    obtain ⟨rfl, rfl⟩ := hroot hf
    omega
  have hblock : ∀ d, ¬ DirBlock st d := fun d ⟨_, _, _, hf, _, hn, _⟩ => hnone hf hn
  have htable : ∀ t, ¬ DirTable st t := fun t ⟨_, _, hf, _, hn, _⟩ => hnone hf hn
  exact {
    ready := h.ready
    size := h.size
    attached := fun _ _ _ hf _ hn => absurd hn (hnone hf)
    used := fun d hd => absurd hd (not_or.mpr ⟨hblock d, htable d⟩)
    apart := fun d hd => absurd hd (hblock d)
    ends := fun d _ hd => absurd hd (hblock d) }

/-- The path `/` after a restart. -/
theorem sync_restarts_root : ∃ fs s fs' fs'', fsInit (emptyCache rootDisk fun _ => true) = .ok ((), fs) ∧
    (FsLife.init fs).step (.request 1 .sync) = some s ∧
    fsInit (emptyCache s.tab.serv.fs.disk fun _ => true) = .ok ((), fs') ∧ Resumes s.tab.serv.fs fs' ∧
    walkPath [slash] fs' = .ok (⟨0, none, some sRoot, []⟩, fs'') := by
  obtain ⟨fs, s, hinit, hstep, hn, hsize, hpath⟩ :
      ∃ fs s, fsInit (emptyCache rootDisk fun _ => true) = .ok ((), fs) ∧
        (FsLife.init fs).step (.request 1 .sync) = some s ∧ fs.nblocks = 5 ∧
        s.tab.serv.fs.dirBlocks 1 2 = 0 ∧
        s.tab.serv.fs.resolve none 1 2 (parts slash [slash]) = ⟨0, none, some sRoot, []⟩ :=
    ⟨_, _, rfl, rfl, rfl, rfl, rfl⟩
  have hstart : FsLife.Start (.init fs) := FsLife.init_start hinit
  have hgood : (FsLife.init fs).Good (.request 1 .sync) := trivial
  have hreach : LifeReach FsLife.Good (.init fs) s := .step .refl hgood hstep
  obtain ⟨use, hinv⟩ := hreach.inv hstart
  have hrest : (FsLife.init fs).tab.serv.fs.nblocks % BIT2BLK ≠ 0 := by
    show fs.nblocks % BIT2BLK ≠ 0
    rw [hn]
    decide
  have hmem : ∀ n < s.tab.serv.fs.nblocks / BIT2BLK + 4, (fun _ : Nat => true) n = true := fun _ _ => rfl
  obtain ⟨fs', hinit', hresumes, hwalks⟩ := sync_restarts hstart hrest .refl hstep hmem
  rcases hwalks (dirTree_empty hinv.layout hsize) [slash] (by decide) with ⟨fs'', hwalk⟩ | ⟨-, n, hnone⟩
  · rw [hpath] at hwalk
    exact ⟨fs, s, fs', fs'', hinit, hstep, hinit', hresumes, hwalk⟩
  · cases hnone

theorem guard_eq_some {p : Prop} [Decidable p] {x : Unit} (h : (guard p : Option Unit) = some x) : p := by
  unfold guard at h
  split_ifs at h with hp
  exact hp

/-- A step of the client 1 that takes a reply, and the server that goes on. -/
theorem LifeReach.taken {s₁ s₂ s₃ : FsLife} (h : LifeReach FsLife.Durable s₀ s)
    (h₁ : s.step (.env 1 ⟨true, true⟩) = some s₁)
    (hpc : ∃ r, s₁.pc = .reply [r] none ∧ (s₁.envs r.whom).alive = true)
    (h₂ : s₁.step (.reply true) = some s₂) (h₃ : s₂.step .next = some s₃) : LifeReach FsLife.Durable s₀ s₃ := by
  obtain ⟨r, hpc, halive⟩ := hpc
  have henv : s.Durable (.env 1 ⟨true, true⟩) := ⟨trivial, fun _ _ heq => by cases heq⟩
  have hreply : s₁.Durable (.reply true) := by
    refine ⟨fun r' todo' stop hpc' => ?_, fun _ _ heq => by cases heq⟩
    rw [hpc] at hpc'
    cases hpc'
    exact ⟨halive, fun _ => rfl⟩
  have hnext : s₂.Durable .next := ⟨trivial, fun _ _ heq => by cases heq⟩
  exact ((h.step henv h₁).step hreply h₂).step hnext h₃

/-- A root that is no directory has no holes that a path leads to. -/
theorem dense_file {st : FsState} (hroot : st.isDir 1 2 = false) : st.Dense := by
  have hsame : ∀ {b i}, Found st b i → b = 1 ∧ i = 2 := by
    intro b i hf
    induction hf with
    | root => exact ⟨rfl, rfl⟩
    | entry _ hdir _ _ _ ih =>
      obtain ⟨rfl, rfl⟩ := ih
      rw [hroot] at hdir
      cases hdir
  intro b i n hf hdir _ _
  obtain ⟨rfl, rfl⟩ := hsame hf
  rw [hroot] at hdir
  cases hdir

/-- A client opens a file, maps its first block, stores 9 to it and says that it is dirty. -/
theorem dirty_saved_word : ∃ fs₀ s s' fs, fsInit (emptyCache smallDisk fun _ => true) = .ok ((), fs₀) ∧
    LifeReach FsLife.Durable (.init fs₀) s ∧ s.step (.request 1 .sync) = some s' ∧
    fsInit (emptyCache s'.tab.serv.fs.disk fun _ => true) = .ok ((), fs) ∧ fs.contents 3 0 = 9#32 := by
  obtain ⟨_, hrun⟩ : ∃ x, (do
      let fs₀ ← (fsInit (emptyCache smallDisk fun _ => true)).toOption
      let s₁ ← (FsLife.init fs₀.2).step (.request 1 (.open [slash] 0))
      let s₂ ← s₁.step (.env 1 ⟨true, true⟩)
      guard (s₂.pc = .reply [⟨1, 0, .ff 0⟩] none ∧ (s₂.envs 1).alive = true ∧ fs₀.2.mem 0 = true ∧
        fs₀.2.nblocks = 5 ∧ (List.range 3).all (fun b => (fs₀.2.cache b).isSome) = true ∧
        (List.range 12).all (fun k => fs₀.2.word 1 (2 + (W_DIRECT + k)) == 0) = true ∧ fs₀.2.isDir 1 2 = false)
      let s₃ ← s₂.step (.reply true)
      let s₄ ← s₃.step .next
      guard ((s₄.tab.serv.opentab 0).file = sRoot ∧ s₄.tab.serv.fs.isDir 1 2 = false ∧
        ((fileGetBlock (addr 1 2) 0 s₄.tab.serv.fs).toOption.map fun p => p.1.toOption) = some (some 3))
      let s₅ ← s₄.step (.request 1 (.map 1024#32 0))
      let s₆ ← s₅.step (.env 1 ⟨true, true⟩)
      guard (s₆.pc = .reply [⟨1, 0, .block 3⟩] none ∧ (s₆.envs 1).alive = true)
      let s₇ ← s₆.step (.reply true)
      let s₈ ← s₇.step .next
      let s₉ ← s₈.step (.store 3 0 9#32)
      let s₁₀ ← s₉.step (.request 1 (.dirty 1024#32 0))
      guard (s₈.lent 3 = some false ∧ (s₉.tab.serv.opentab 0).file = sRoot ∧
        s₉.tab.serv.fs.word 1 (2 + W_DIRECT + 0) = 3#32 ∧ s₁₀.pc = .reply [⟨1, 0, .none⟩] none)
      let s₁₁ ← s₁₀.step (.env 1 ⟨true, true⟩)
      guard (s₁₁.pc = .reply [⟨1, 0, .none⟩] none ∧ (s₁₁.envs 1).alive = true)
      let s₁₂ ← s₁₁.step (.reply true)
      let s₁₃ ← s₁₂.step .next
      let s₁₄ ← s₁₃.step (.request 1 .sync)
      guard (s₁₄.tab.serv.fs.contents 3 0 = 9#32)) = some x := Option.isSome_iff_exists.mp (by decide +kernel)
  obtain ⟨⟨_, fs₀⟩, hinit, hrun⟩ := Option.bind_eq_some_iff.mp hrun
  obtain ⟨s₁, h₁, hrun⟩ := Option.bind_eq_some_iff.mp hrun
  obtain ⟨s₂, h₂, hrun⟩ := Option.bind_eq_some_iff.mp hrun
  obtain ⟨_, hg, hrun⟩ := Option.bind_eq_some_iff.mp hrun
  obtain ⟨hpc₂, halive₂, hmem₀, hn, hcached, hzeros, hregular⟩ := guard_eq_some hg
  obtain ⟨s₃, h₃, hrun⟩ := Option.bind_eq_some_iff.mp hrun
  obtain ⟨s₄, h₄, hrun⟩ := Option.bind_eq_some_iff.mp hrun
  obtain ⟨_, hg, hrun⟩ := Option.bind_eq_some_iff.mp hrun
  obtain ⟨hfile, hregular₄, hget⟩ := guard_eq_some hg
  obtain ⟨s₅, h₅, hrun⟩ := Option.bind_eq_some_iff.mp hrun
  obtain ⟨s₆, h₆, hrun⟩ := Option.bind_eq_some_iff.mp hrun
  obtain ⟨_, hg, hrun⟩ := Option.bind_eq_some_iff.mp hrun
  obtain ⟨hpc₆, halive₆⟩ := guard_eq_some hg
  obtain ⟨s₇, h₇, hrun⟩ := Option.bind_eq_some_iff.mp hrun
  obtain ⟨s₈, h₈, hrun⟩ := Option.bind_eq_some_iff.mp hrun
  obtain ⟨s₉, h₉, hrun⟩ := Option.bind_eq_some_iff.mp hrun
  obtain ⟨s₁₀, h₁₀, hrun⟩ := Option.bind_eq_some_iff.mp hrun
  obtain ⟨_, hg, hrun⟩ := Option.bind_eq_some_iff.mp hrun
  obtain ⟨hlent, hfile₉, hthree, hpc₁₀⟩ := guard_eq_some hg
  obtain ⟨s₁₁, h₁₁, hrun⟩ := Option.bind_eq_some_iff.mp hrun
  obtain ⟨_, hg, hrun⟩ := Option.bind_eq_some_iff.mp hrun
  obtain ⟨hpc₁₁, halive₁₁⟩ := guard_eq_some hg
  obtain ⟨s₁₂, h₁₂, hrun⟩ := Option.bind_eq_some_iff.mp hrun
  obtain ⟨s₁₃, h₁₃, hrun⟩ := Option.bind_eq_some_iff.mp hrun
  obtain ⟨s₁₄, h₁₄, hg⟩ := Option.bind_eq_some_iff.mp hrun
  have hword := guard_eq_some hg
  have hinit : fsInit (emptyCache smallDisk fun _ => true) = .ok ((), fs₀) := by
    cases hx : fsInit (emptyCache smallDisk fun _ => true) with
    | error e =>
      rw [hx] at hinit
      cases hinit
    | ok p =>
      rw [hx] at hinit
      cases hinit
      rfl
  obtain ⟨hready, hused⟩ := fsInit_ready hinit
  have hstart : FsLife.Start (.init fs₀) := FsLife.init_start_small hinit hn hcached hzeros
  have hrest : (FsLife.init fs₀).tab.serv.fs.nblocks % BIT2BLK ≠ 0 := by
    show fs₀.nblocks % BIT2BLK ≠ 0
    rw [hn]
    decide
  have hroot : ∀ {s : FsLife} o b i, (s.tab.serv.opentab 0).file = sRoot → LooksUp s.tab.serv 1024#32 o →
      o.file = addr b i → i < 1024 → b = 1 ∧ i = 2 := by
    rintro s o b i hfile ⟨rfl, -⟩ haddr hi
    have heq : addr 1 2 = addr b i := hfile.symm.trans haddr
    obtain ⟨hb, hi'⟩ := addr_inj (by decide) hi heq
    exact ⟨hb.symm, hi'.symm⟩
  have hslot : OpenSlot (FsLife.init fs₀).tab.serv 0 :=
    ⟨by decide, fun j hj => absurd hj (Nat.not_lt_zero j), Or.inr ⟨rfl, hmem₀⟩,
      show 0 ≤ (BitVec.ofNat 32 0 + BitVec.ofNat 32 MAXOPEN).toInt by decide⟩
  have hopen : (FsLife.init fs₀).Durable (.request 1 (.open [slash] 0)) :=
    ⟨⟨⟨0, hslot⟩, Or.inl ⟨hready, hused⟩⟩, fun _ _ heq => by cases heq; exact dense_file hregular⟩
  have hmap : s₄.Durable (.request 1 (.map 1024#32 0)) := by
    refine ⟨⟨fun hnever => absurd hnever.2 (by decide), fun o b i ho haddr hi => ?_⟩, fun _ _ heq => ?_⟩
    · obtain ⟨rfl, rfl⟩ := hroot o b i hfile ho haddr hi
      exact ⟨fun hlo => absurd hlo (by decide), fun hdir => absurd (hregular₄.symm.trans hdir) Bool.false_ne_true⟩
    · cases heq
      intro o b i ho haddr hi
      obtain ⟨rfl, rfl⟩ := hroot o b i hfile ho haddr hi
      refine ⟨fun hdir => absurd (hregular₄.symm.trans hdir) Bool.false_ne_true, fun e st' hrun => ?_⟩
      have hrun : fileGetBlock (addr 1 2) 0 s₄.tab.serv.fs = .ok (.error e, st') := hrun
      rw [hrun] at hget
      cases hget
  have hstore : s₈.Durable (.store 3 0 9#32) := ⟨hlent, fun _ _ heq => by cases heq⟩
  have hdirty : s₉.Durable (.request 1 (.dirty 1024#32 0)) :=
    ⟨fun hnever => absurd hnever.2 (by decide), fun _ _ heq => by cases heq; trivial⟩
  have hreach₁ : LifeReach FsLife.Durable (.init fs₀) s₁ := .step .refl hopen h₁
  have hreach₄ := hreach₁.taken h₂ ⟨_, hpc₂, halive₂⟩ h₃ h₄
  have hreach₈ := (hreach₄.step hmap h₅).taken h₆ ⟨_, hpc₆, halive₆⟩ h₇ h₈
  have hreach₉ := hreach₈.step hstore h₉
  have hafter : LifeReach FsLife.Durable s₁₀ s₁₃ := LifeReach.taken .refl h₁₁ ⟨_, hpc₁₁, halive₁₁⟩ h₁₂ h₁₃
  have hmem : ∀ n < s₁₄.tab.serv.fs.nblocks / BIT2BLK + 4, (fun _ : Nat => true) n = true := fun _ _ => rfl
  obtain ⟨o, b, i, d, fs, ho, haddr, hi, hnames, hinit', hsaved⟩ :=
    dirty_saved hstart hrest hreach₉ hdirty h₁₀ hpc₁₀ hafter h₁₄ hmem
  refine ⟨fs₀, s₁₃, s₁₄, fs, hinit, (hreach₉.step hdirty h₁₀).trans hafter, h₁₄, hinit', ?_⟩
  have hd : d = 3 := by
    obtain ⟨rfl, rfl⟩ := hroot o b i hfile₉ ho haddr hi
    obtain ⟨b', j, hslot, -, rfl⟩ := hnames
    have hfirst : s₉.tab.serv.fs.slot 1 2 (0 / BY2BLK) = some (1, 2 + W_DIRECT + 0) := rfl
    rw [hfirst] at hslot
    cases hslot
    rw [hthree]
    rfl
  rw [← hword, ← hd, hsaved]

end Mos.User
