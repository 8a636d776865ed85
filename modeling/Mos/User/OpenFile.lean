import Mos.User.InitStack
import Mos.User.Space

/-!
# MOS on RISC-V — open and ftruncate when something fails

`open` takes a descriptor, a slot of the server and then a page at a time; `ftruncate` notes
the new size in the `Fd` page before it asks the server for anything. Both return at the
first error.

Main results:

* `openFile_right_iff` — an `open` that fails leaves the descriptors as they were exactly if
  the server refused it, or it never failed;
* `ftruncate_right_iff` — an `ftruncate` that fails leaves sizes and pages as they were
  exactly if it is refused by its own tests, or nothing is to change.
-/

namespace Mos.User

open Mos.Lib Mos.Kern
open Mos.Fs (Stop E_NO_DISK E_BAD_PATH)

def MAXPATHLEN : Nat := 1024

-- ---------------------------------------------------------------------------
-- open
-- ---------------------------------------------------------------------------

/-- What the system calls and requests of `open` come back with: the reply to the request
to open, the page for the `k`-th `syscall_mem_alloc`, and the reply to the `k`-th
`fsipc_map`. An error is negative, and brings no page. -/
structure OpenCalls where
  openReply : CString → Nat → Except Int (Mapping × FdPage)
  allocPage : Nat → Option Nat
  mapReply : Nat → Except Int Mapping
  openNeg : ∀ path mode r, openReply path mode = .error r → r < 0
  mapNeg : ∀ k r, mapReply k = .error r → r < 0

variable (c : OpenCalls)

/-- Step 4 of `open`, for the pages `ks` of the window at `va`. -/
def openPages (va : Nat) : List Nat → Space → Int × Space
  | [], s => (0, s)
  | k :: ks, s =>
    let page := (va + BY2PG * k) % 2 ^ 32
    let (r, s) := s.memAlloc (c.allocPage k) page PTE_W
    if r ≠ 0 then (r, s)
    else
      match c.mapReply k with
      | .error r => (r, s)
      | .ok m => openPages va ks (s.map (VPN page) m)

/-- The pages of a file; where the loop would not end, a page is not legal before. -/
def filePages (size : Nat) : List Nat := List.range ((size + (BY2PG - 1)) / BY2PG)

def openFile (path : CString) (mode : Nat) (s : Space) : Int × Space :=
  match s.view.fdAlloc with
  | .error r => (r, s)
  | .ok fd =>
    if MAXPATHLEN ≤ path.val.length then (-E_BAD_PATH, s)
    else
      match c.openReply path mode with
      | .error r => (r, s)
      | .ok (m, ff) =>
        let (r, s) := openPages c (fd2data fd) (filePages ff.size) (s.map (VPN fd) m)
        if r ≠ 0 then (r, s) else (fd2num fd, s)

/-- The descriptors have the same pages mapped. -/
def SameDescriptors (s s' : Space) : Prop :=
  ∀ d < 32, (s'.entry (fdVpn d)).isSome = (s.entry (fdVpn d)).isSome ∧
    ∀ i < 1024, (s'.entry (dataVpn d i)).isSome = (s.entry (dataVpn d i)).isSome

def OpenRight (path : CString) (mode : Nat) (s : Space) : Prop :=
  (openFile c path mode s).1 < 0 → SameDescriptors s (openFile c path mode s).2

/-- A call for page `k` of the window at `va` fails. -/
def PageFails (va k : Nat) : Prop :=
  isIllegalVa ((va + BY2PG * k) % 2 ^ 32) = true ∨ c.allocPage k = none ∨ ∃ r, c.mapReply k = .error r

/-- Once the server has accepted the request, nothing fails. -/
def OpenSafe (path : CString) (mode : Nat) (s : Space) : Prop :=
  ∀ fd m ff, s.view.fdAlloc = .ok fd → path.val.length < MAXPATHLEN → c.openReply path mode = .ok (m, ff) →
    ∀ k ∈ filePages ff.size, ¬ PageFails c (fd2data fd) k

variable {c} {s s' : Space} {va vpn k : Nat} {ks : List Nat}

/-- One round of the loop: pages are only added, and either it fails or the rest follows. -/
theorem openPages_cons (c : OpenCalls) (va k : Nat) (ks : List Nat) (s : Space) :
    ∃ s₁, (∀ vpn, (s.entry vpn).isSome = true → (s₁.entry vpn).isSome = true) ∧
      (PageFails c va k ∧ (∃ r < 0, openPages c va (k :: ks) s = (r, s₁)) ∨
        ¬ PageFails c va k ∧ openPages c va (k :: ks) s = openPages c va ks s₁) := by
  have hmap : ∀ (s : Space) (v : Nat) (m : Mapping) (vpn : Nat), (s.entry vpn).isSome = true →
      ((s.map v m).entry vpn).isSome = true := fun s v m vpn h => by
    by_cases hv : vpn = v
    · rw [hv, Space.map_entry_self]
      rfl
    · rw [Space.map_entry_of_ne hv]
      exact h
  generalize hrest : openPages c va ks = rest
  unfold PageFails openPages Space.memAlloc
  rw [hrest]
  generalize (va + BY2PG * k) % 2 ^ 32 = page
  simp only
  by_cases hva : isIllegalVa page = true
  · rw [if_pos hva]
    exact ⟨s, fun _ h => h, Or.inl ⟨Or.inl hva, -E_INVAL, by decide, rfl⟩⟩
  rw [if_neg hva]
  cases halloc : c.allocPage k with
  | none => exact ⟨s, fun _ h => h, Or.inl ⟨Or.inr (Or.inl rfl), -E_NO_MEM, by decide, rfl⟩⟩
  | some f =>
    cases hreply : c.mapReply k with
    | error r => exact ⟨_, hmap s _ _, Or.inl ⟨Or.inr (Or.inr ⟨r, rfl⟩), r, c.mapNeg k r hreply, rfl⟩⟩
    | ok m =>
      refine ⟨_, fun vpn h => hmap _ _ m vpn (hmap s _ _ vpn h), Or.inr ⟨?_, rfl⟩⟩
      rintro (h | h | ⟨r, h⟩)
      · exact hva h
      · cases h
      · cases h

/-- `open` does not take pages away. -/
theorem openPages_keeps (c : OpenCalls) (va : Nat) (ks : List Nat) (h : (s.entry vpn).isSome = true) :
    ((openPages c va ks s).2.entry vpn).isSome = true := by
  induction ks generalizing s with
  | nil => exact h
  | cons k ks ih =>
    obtain ⟨s₁, hkeep, ⟨-, r, -, heq⟩ | ⟨-, heq⟩⟩ := openPages_cons c va k ks s
    · rw [heq]
      exact hkeep vpn h
    · rw [heq]
      exact ih (hkeep vpn h)

/-- The loop fails exactly if a call for one of the pages does. -/
theorem openPages_reply (c : OpenCalls) (va : Nat) (ks : List Nat) (s : Space) :
    (openPages c va ks s).1 = 0 ∧ (∀ k ∈ ks, ¬ PageFails c va k) ∨
      (openPages c va ks s).1 < 0 ∧ ∃ k ∈ ks, PageFails c va k := by
  induction ks generalizing s with
  | nil => exact Or.inl ⟨rfl, nofun⟩
  | cons k ks ih =>
    rw [List.exists_mem_cons_iff, List.forall_mem_cons]
    obtain ⟨s₁, -, ⟨hfail, r, hr, heq⟩ | ⟨hok, heq⟩⟩ := openPages_cons c va k ks s
    · rw [heq]
      exact Or.inr ⟨hr, Or.inl hfail⟩
    · rw [heq]
      exact (ih s₁).imp (fun h => ⟨h.1, hok, h.2⟩) fun h => ⟨h.1, Or.inr h.2⟩

theorem SameDescriptors.refl (s : Space) : SameDescriptors s s := fun _ _ => ⟨rfl, fun _ _ => rfl⟩

/-- **Opening a file.** -/
theorem openFile_right_iff (c : OpenCalls) (path : CString) (mode : Nat) (s : Space) :
    OpenRight c path mode s ↔ OpenSafe c path mode s := by
  constructor
  · intro hright fd m ff hfd hlen hopen k hk hfail
    obtain ⟨d, hd, rfl, hfree⟩ := s.fdAlloc_free hfd
    have heq : openFile c path mode s =
        let r := openPages c (fd2data (INDEX2FD d)) (filePages ff.size) (s.map (fdVpn d) m)
        if r.1 ≠ 0 then (r.1, r.2) else (fd2num (INDEX2FD d), r.2) := by
      unfold openFile
      rw [hfd]
      simp only [if_neg (Nat.not_le.mpr hlen), hopen]
      rfl
    rcases openPages_reply c (fd2data (INDEX2FD d)) (filePages ff.size) (s.map (fdVpn d) m)
      with ⟨-, hnone⟩ | ⟨hneg, -⟩
    · exact hnone k hk hfail
    · -- the `Fd` page is still there
      have hnew : ((s.map (fdVpn d) m).entry (fdVpn d)).isSome = true := by
        rw [Space.map_entry_self]
        rfl
      have hkeep := openPages_keeps c (fd2data (INDEX2FD d)) (filePages ff.size) hnew
      unfold OpenRight at hright
      rw [heq] at hright
      simp only [if_pos (Int.ne_of_lt hneg)] at hright
      have hsame := ((hright hneg) d (by omega)).1
      rw [hkeep, hfree] at hsame
      cases hsame
  · intro hsafe hneg
    unfold openFile at hneg ⊢
    cases hfd : s.view.fdAlloc with
    | error r => exact SameDescriptors.refl s
    | ok fd =>
      rw [hfd] at hneg
      simp only at hneg ⊢
      split_ifs at hneg ⊢ with hlen
      · exact SameDescriptors.refl s
      · cases hopen : c.openReply path mode with
        | error r => exact SameDescriptors.refl s
        | ok mf =>
          obtain ⟨m, ff⟩ := mf
          obtain ⟨d, hd, rfl, -⟩ := s.fdAlloc_free hfd
          rw [hopen] at hneg
          rcases openPages_reply c (fd2data (INDEX2FD d)) (filePages ff.size) (s.map (VPN (INDEX2FD d)) m)
            with ⟨hzero, -⟩ | ⟨-, k, hk, hfail⟩
          · simp only [hzero, if_neg (not_not_intro rfl)] at hneg
            rw [fd2num_INDEX2FD (by omega)] at hneg
            exact absurd hneg (by omega)
          · exact absurd hfail (hsafe _ m ff hfd (Nat.lt_of_not_le hlen) hopen k hk)

/-- There is a file of one page, and no page for it. -/
def noPage : OpenCalls where
  openReply _ _ := .ok (⟨7, PTE_U ||| PTE_R ||| PTE_V⟩, ⟨Dev.devfile.devId, 0, O_RDONLY, 0, 100⟩)
  allocPage _ := none
  mapReply _ := .error (-E_NO_DISK)
  openNeg := nofun
  mapNeg _ _ h := by
    cases h
    decide

def Space.empty : Space := ⟨fun _ => false, fun _ => none, nofun⟩

theorem openFile_leaks : ¬ OpenRight noPage ⟨[0x61], by decide⟩ O_RDONLY Space.empty ∧
    (openFile noPage ⟨[0x61], by decide⟩ O_RDONLY Space.empty).1 = -E_NO_MEM ∧
    (openFile noPage ⟨[0x61], by decide⟩ O_RDONLY Space.empty).2.entry (fdVpn 0) =
      some ⟨7, PTE_U ||| PTE_R ||| PTE_V⟩ := by
  have hr : (openFile noPage ⟨[0x61], by decide⟩ O_RDONLY Space.empty).1 = -E_NO_MEM := by decide
  have hleft : (openFile noPage ⟨[0x61], by decide⟩ O_RDONLY Space.empty).2.entry (fdVpn 0) =
      some ⟨7, PTE_U ||| PTE_R ||| PTE_V⟩ := by decide
  refine ⟨fun hright => ?_, hr, hleft⟩
  have hsame := (hright (by rw [hr]; decide) 0 (by decide)).1
  rw [hleft] at hsame
  cases hsame

-- ---------------------------------------------------------------------------
-- ftruncate
-- ---------------------------------------------------------------------------

/-- What the requests of `ftruncate` come back with: the replies to the two requests to set
the size, and to the request for the page at offset `i`. The server refuses a size only if
it does not know the id. -/
structure TruncCalls where
  fileOf : Nat → Nat               -- the file the server has open under an id
  setSize : Int
  setSizeBack : Int
  mapReply : Nat → Except Int Mapping
  mapNeg : ∀ i r, mapReply i = .error r → r < 0

/-- A process, the `Fd` pages by frame, and the sizes the server has. -/
structure Client where
  space : Space
  fd : Nat → FdPage
  fileSize : Nat → Nat

namespace Client

variable (t : TruncCalls) (c : Client)

/-- The `Fd` page at `fd`. -/
def fdPage (fd : Nat) : FdPage := c.fd (c.space.frameAt fd)

def setFdSize (fd size : Nat) : Client :=
  { c with fd := Function.update c.fd (c.space.frameAt fd) { c.fdPage fd with size } }

/-- `fsipc_set_size(fileid, size)`, with the reply `r`. -/
def fsipcSetSize (r : Int) (fileid size : Nat) : Int × Client :=
  if r < 0 then (r, c) else (r, { c with fileSize := Function.update c.fileSize (t.fileOf fileid) size })

/-- The loop of `ftruncate` that maps new pages, with what it does on an error. -/
def mapPages (fileid oldsize va : Nat) : List Nat → Client → Int × Client
  | [], c => (0, c)
  | i :: is, c =>
    match t.mapReply i with
    | .error r => (r, (c.fsipcSetSize t t.setSizeBack fileid oldsize).2)
    | .ok m => mapPages fileid oldsize va is { c with space := c.space.map (VPN (va + i)) m }

/-- The loop of `ftruncate` that unmaps pages. -/
def unmapPages (va : Nat) : List Nat → Client → Except Stop Client
  | [], c => .ok c
  | i :: is, c =>
    let (r, space) := c.space.memUnmap (va + i)
    if r < 0 then .error .userPanic else unmapPages va is { c with space }

def ftruncate (fdnum : Int) (size : Nat) : Except Stop (Int × Client) :=
  if MAXFILESIZE < size then .ok (-E_NO_DISK, c)
  else
    match c.space.view.fdLookup fdnum with
    | .error r => .ok (r, c)
    | .ok fd =>
      let f := c.fdPage fd
      if f.devId ≠ Dev.devfile.devId then .ok (-E_INVAL, c)
      else
        let (r, c) := (c.setFdSize fd size).fsipcSetSize t t.setSize f.fileid size
        if r < 0 then .ok (r, c)
        else
          let va := fd2data fd
          let (r, c) := mapPages t f.fileid f.size va (pagesFrom (ROUND f.size BY2PG) (ROUND size BY2PG)) c
          if r < 0 then .ok (r, c)
          else do
            let c ← unmapPages va (pagesFrom (ROUND size BY2PG) (ROUND f.size BY2PG)) c
            return (0, c)

/-- Descriptor `d` is as it was: the size in its `Fd` page and at the server, and which pages
below the size are there. -/
structure Kept (d : Nat) (c c' : Client) : Prop where
  size : (c'.fdPage (INDEX2FD d)).size = (c.fdPage (INDEX2FD d)).size
  fileSize : c'.fileSize (t.fileOf (c.fdPage (INDEX2FD d)).fileid) =
    c.fileSize (t.fileOf (c.fdPage (INDEX2FD d)).fileid)
  pages : ∀ i, BY2PG * i < (c.fdPage (INDEX2FD d)).size →
    (c'.space.entry (dataVpn d i)).isSome = (c.space.entry (dataVpn d i)).isSome

def FtruncateRight (d size : Nat) : Prop :=
  ∀ r c', c.ftruncate t d size = .ok (r, c') → r < 0 → Kept t d c c'

/-- The call is refused by its own tests, changes nothing, or no request fails. -/
def FtruncateSafe (d size : Nat) : Prop :=
  MAXFILESIZE < size ∨ c.space.entry (fdVpn d) = none ∨
    (c.fdPage (INDEX2FD d)).devId ≠ Dev.devfile.devId ∨ size = (c.fdPage (INDEX2FD d)).size ∨
    0 ≤ t.setSize ∧ ∀ i ∈ pagesFrom (ROUND (c.fdPage (INDEX2FD d)).size BY2PG) (ROUND size BY2PG),
      ∃ m, t.mapReply i = .ok m

variable {t c} {d size fileid oldsize : Nat} {is : List Nat}

/-- `fsipc_set_size` is about the server only. -/
theorem fsipcSetSize_client (t : TruncCalls) (c : Client) (r : Int) (fileid size : Nat) :
    (c.fsipcSetSize t r fileid size).1 = r ∧ (c.fsipcSetSize t r fileid size).2.space = c.space ∧
      (c.fsipcSetSize t r fileid size).2.fd = c.fd := by
  unfold fsipcSetSize
  split_ifs
  · exact ⟨rfl, rfl, rfl⟩
  · exact ⟨rfl, rfl, rfl⟩

/-- What the `Fd` page is depends on the frames and the entries. -/
theorem fdPage_of {c' : Client} {fd : Nat} (hfd : c'.fd = c.fd)
    (hframe : c'.space.entry (VPN fd) = c.space.entry (VPN fd)) : c'.fdPage fd = c.fdPage fd := by
  unfold fdPage Space.frameAt
  rw [hfd, hframe]

/-- The loop adds pages, where it is told. -/
theorem mapPages_client (t : TruncCalls) (fileid oldsize : Nat) (c : Client) {v : Nat}
    (h : ∀ i ∈ is, v ≠ VPN (va + i)) :
    (mapPages t fileid oldsize va is c).2.fd = c.fd ∧
      (mapPages t fileid oldsize va is c).2.space.entry v = c.space.entry v := by
  induction is generalizing c with
  | nil => exact ⟨rfl, rfl⟩
  | cons i is ih =>
    unfold mapPages
    cases t.mapReply i with
    | error r =>
      obtain ⟨-, hspace, hfd⟩ := fsipcSetSize_client t c t.setSizeBack fileid oldsize
      exact ⟨hfd, by rw [hspace]⟩
    | ok m =>
      obtain ⟨hfd, hentry⟩ := ih { c with space := c.space.map (VPN (va + i)) m }
        fun j hj => h j (List.mem_cons_of_mem _ hj)
      exact ⟨hfd, hentry.trans (Space.map_entry_of_ne (h i List.mem_cons_self))⟩

/-- The loop fails exactly if a request for one of the pages does. -/
theorem mapPages_reply (t : TruncCalls) (fileid oldsize va : Nat) (is : List Nat) (c : Client) :
    (mapPages t fileid oldsize va is c).1 = 0 ∧ (∀ i ∈ is, ∃ m, t.mapReply i = .ok m) ∨
      (mapPages t fileid oldsize va is c).1 < 0 ∧ ¬ ∀ i ∈ is, ∃ m, t.mapReply i = .ok m := by
  induction is generalizing c with
  | nil => exact Or.inl ⟨rfl, nofun⟩
  | cons i is ih =>
    rw [List.forall_mem_cons]
    unfold mapPages
    cases hreply : t.mapReply i with
    | error r =>
      refine Or.inr ⟨t.mapNeg i r hreply, fun h => ?_⟩
      obtain ⟨m, hm⟩ := h.1
      cases hm
    | ok m => exact (ih _).imp (fun h => ⟨h.1, ⟨m, rfl⟩, h.2⟩) fun h => ⟨h.1, fun h' => h.2 h'.2⟩

/-- What `ftruncate` does with an open file: the `Fd` page has the new size before the first
request. -/
theorem ftruncate_file (t : TruncCalls) (hd : d < 32) (hsize : size ≤ MAXFILESIZE)
    (hopen : c.space.entry (fdVpn d) ≠ none) (hdev : (c.fdPage (INDEX2FD d)).devId = Dev.devfile.devId) :
    ∃ c₁, c₁.space = c.space ∧ (c₁.fdPage (INDEX2FD d)).size = size ∧
      (t.setSize < 0 → c₁.fileSize = c.fileSize ∧ c.ftruncate t d size = .ok (t.setSize, c₁)) ∧
      (0 ≤ t.setSize → c.ftruncate t d size =
        let f := c.fdPage (INDEX2FD d)
        let m := mapPages t f.fileid f.size (INDEX2DATA d) (pagesFrom (ROUND f.size BY2PG) (ROUND size BY2PG)) c₁
        if m.1 < 0 then .ok (m.1, m.2)
        else unmapPages (INDEX2DATA d) (pagesFrom (ROUND size BY2PG) (ROUND f.size BY2PG)) m.2 >>=
          fun c' => .ok (0, c')) := by
  have hM : MAXFD = 32 := rfl
  have hlook : c.space.view.fdLookup d = .ok (INDEX2FD d) :=
    fdLookup_of_used (by omega) (by rw [Space.used_view]; exact Option.isSome_iff_ne_none.mpr hopen)
  obtain ⟨hr, hspace, hfd⟩ := fsipcSetSize_client t (c.setFdSize (INDEX2FD d) size) t.setSize
    (c.fdPage (INDEX2FD d)).fileid size
  refine ⟨((c.setFdSize (INDEX2FD d) size).fsipcSetSize t t.setSize (c.fdPage (INDEX2FD d)).fileid size).2,
    hspace, ?_, fun hneg => ⟨?_, ?_⟩, fun hpos => ?_⟩
  · have hset : (c.setFdSize (INDEX2FD d) size).fdPage (INDEX2FD d) = { c.fdPage (INDEX2FD d) with size } :=
      Function.update_self ..
    rw [fdPage_of hfd (by rw [hspace]), hset]
  · unfold fsipcSetSize
    rw [if_pos hneg]
    rfl
  · unfold ftruncate
    rw [if_neg (Nat.not_lt.mpr hsize), hlook]
    simp only [hdev, hr, if_pos hneg, ne_eq, not_true_eq_false, if_false]
  · unfold ftruncate
    rw [if_neg (Nat.not_lt.mpr hsize), hlook]
    simp only [hdev, hr, if_neg (Int.not_lt.mpr hpos), ne_eq, not_true_eq_false, if_false, fd2data_INDEX2FD hd]
    rfl

theorem Kept.refl (t : TruncCalls) (d : Nat) (c : Client) : Kept t d c c := ⟨rfl, rfl, fun _ _ => rfl⟩

/-- **Setting the size of a file.** -/
theorem ftruncate_right_iff (t : TruncCalls) (c : Client) (size : Nat) (hd : d < 32) :
    FtruncateRight t c d size ↔ FtruncateSafe t c d size := by
  have hM : MAXFD = 32 := rfl
  by_cases hsize : MAXFILESIZE < size
  · refine iff_of_true (fun r c' h _ => ?_) (Or.inl hsize)
    unfold ftruncate at h
    rw [if_pos hsize] at h
    cases h
    exact Kept.refl t d c
  by_cases hopen : c.space.entry (fdVpn d) = none
  · refine iff_of_true (fun r c' h _ => ?_) (Or.inr (Or.inl hopen))
    unfold ftruncate at h
    rw [if_neg hsize, fdLookup_of_unused fun hused => ?_] at h
    · cases h
      exact Kept.refl t d c
    · rw [Space.used_view, hopen] at hused
      cases hused.2
  by_cases hdev : (c.fdPage (INDEX2FD d)).devId = Dev.devfile.devId
  swap
  · refine iff_of_true (fun r c' h _ => ?_) (Or.inr (Or.inr (Or.inl hdev)))
    unfold ftruncate at h
    rw [if_neg hsize, fdLookup_of_used (by omega) (by
      rw [Space.used_view]
      exact Option.isSome_iff_ne_none.mpr hopen)] at h
    simp only [if_pos hdev] at h
    cases h
    exact Kept.refl t d c
  obtain ⟨c₁, hspace, hnew, hrefused, haccepted⟩ :=
    ftruncate_file t hd (Nat.not_lt.mp hsize) hopen hdev
  generalize hf : c.fdPage (INDEX2FD d) = f at hrefused haccepted hdev
  -- mapping leaves the `Fd` page alone
  have hmapped : ((mapPages t f.fileid f.size (INDEX2DATA d)
      (pagesFrom (ROUND f.size BY2PG) (ROUND size BY2PG)) c₁).2.fdPage (INDEX2FD d)).size = size := by
    have hother : ∀ i ∈ pagesFrom (ROUND f.size BY2PG) (ROUND size BY2PG),
        fdVpn d ≠ VPN (INDEX2DATA d + i) := fun i hi => by
      have hhi := (mem_pagesFrom hi).2
      have hround := (ROUND_size (Nat.not_lt.mp hsize)).2
      have hmax : MAXFILESIZE = 2 ^ 22 := by decide
      rw [fdVpn_eq hd, INDEX2DATA_of_lt hd, show VPN _ = _ from PPN_eq _]
      simp only [FILEBASE, PDMAP, BY2PG] at hhi ⊢
      omega
    obtain ⟨hfd, hentry⟩ := mapPages_client t f.fileid f.size c₁ hother
    rw [fdPage_of hfd hentry]
    exact hnew
  constructor
  · intro hright
    by_contra hunsafe
    unfold FtruncateSafe at hunsafe
    rw [hf] at hunsafe
    push Not at hunsafe
    obtain ⟨-, -, -, hne, hfail⟩ := hunsafe
    rcases Int.lt_or_le t.setSize 0 with hneg | hpos
    · have hkept := (hright _ _ (hrefused hneg).2 hneg).size
      rw [hnew, hf] at hkept
      exact hne hkept
    · rcases mapPages_reply t f.fileid f.size (INDEX2DATA d)
        (pagesFrom (ROUND f.size BY2PG) (ROUND size BY2PG)) c₁ with ⟨-, hall⟩ | ⟨hneg, -⟩
      · obtain ⟨i, hi, hno⟩ := hfail hpos
        obtain ⟨m, hm⟩ := hall i hi
        exact hno m hm
      · have heq := haccepted hpos
        simp only [if_pos hneg] at heq
        have hkept := (hright _ _ heq hneg).size
        rw [hmapped, hf] at hkept
        exact hne hkept
  · intro hsafe r c' h hr
    have hnone : (size = f.size ∨ 0 ≤ t.setSize ∧ ∀ i ∈ pagesFrom (ROUND f.size BY2PG) (ROUND size BY2PG),
        ∃ m, t.mapReply i = .ok m) := by
      unfold FtruncateSafe at hsafe
      rw [hf] at hsafe
      exact ((hsafe.resolve_left hsize).resolve_left hopen).resolve_left (not_not_intro hdev)
    rcases Int.lt_or_le t.setSize 0 with hneg | hpos
    · -- refused: nothing has changed but the size in the page
      obtain ⟨hserver, heq⟩ := hrefused hneg
      rw [heq] at h
      cases h
      refine ⟨?_, ?_, fun i _ => by rw [hspace]⟩
      · rw [hnew, hf]
        exact hnone.resolve_right fun h' => absurd h'.1 (by omega)
      · rw [hserver]
    · have heq := haccepted hpos
      rcases mapPages_reply t f.fileid f.size (INDEX2DATA d)
        (pagesFrom (ROUND f.size BY2PG) (ROUND size BY2PG)) c₁ with ⟨hzero, -⟩ | ⟨-, hsome⟩
      · simp only [hzero, Int.lt_irrefl, if_false] at heq
        rw [heq] at h
        obtain ⟨c₂, -, hret⟩ := (Lib.bind_eq_ok ..).mp h
        cases hret
        exact absurd hr (by decide)
      · refine absurd (fun i hi => ?_) hsome
        rcases hnone with hsame | ⟨-, hall⟩
        · rw [hsame] at hi
          obtain ⟨hlo, hhi⟩ := mem_pagesFrom hi
          have hpg : BY2PG = 4096 := rfl
          omega
        · exact hall i hi

/-- The disk is full, and descriptor 0 has a file of 100 bytes. -/
def diskFull : TruncCalls where
  fileOf := id
  setSize := 0
  setSizeBack := 0
  mapReply _ := .error (-E_NO_DISK)
  mapNeg _ _ h := by
    cases h
    decide

def smallFile : Client where
  space := Space.empty.map (fdVpn 0) ⟨7, PTE_U ||| PTE_R ||| PTE_V⟩
  fd _ := ⟨Dev.devfile.devId, 0, O_RDWR, 0, 100⟩
  fileSize _ := 100

/-- The same size again: nothing can fail. -/
theorem ftruncate_right_same : FtruncateRight diskFull smallFile 0 100 :=
  (ftruncate_right_iff diskFull smallFile 100 (by decide)).mpr
    (Or.inr (Or.inr (Or.inr (Or.inl rfl))))

/-- The process takes the file for 5000 bytes, the server for 100. -/
theorem ftruncate_half : ¬ FtruncateRight diskFull smallFile 0 5000 ∧
    ∃ c, smallFile.ftruncate diskFull 0 5000 = .ok (-E_NO_DISK, c) ∧
      (c.fdPage (INDEX2FD 0)).size = 5000 ∧ c.fileSize 0 = 100 := by
  have heq : smallFile.ftruncate diskFull 0 5000 = .ok (-E_NO_DISK, _) := rfl
  refine ⟨fun hright => ?_, _, heq, by decide, by decide⟩
  have hkept := (hright _ _ heq (by decide)).size
  exact absurd hkept (by decide)

end Client

end Mos.User
