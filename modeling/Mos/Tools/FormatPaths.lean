import Mos.Tools.FormatStart
import Mos.Tools.FormatTree

/-!
# MOS on RISC-V — paths of the host in the file server

The tool writes a tree of the host, and the file server follows paths in what it has written:
`Place.walk` says where a path leads on the host, and `walk_path` comes to a file of that kind and
size, with the blocks that the host's data went into (`fsformat_walks`). A path that leads nowhere on
the host leads nowhere in the server.
-/

namespace Mos.Tools

open Mos.Lib Mos.Fs

variable {img img' : Image} {use : Uses} {st : FsState} {data : Nat → Block} {f : FilePtr}
  {b e i j n lo hi : Nat} {name : List Nat} {files : List (List Nat × Node)}

-- ---------------------------------------------------------------------------
-- What the host has at a path
-- ---------------------------------------------------------------------------

inductive Place where
  | file (g : HostFile)
  | dir (files : List (List Nat × Node))

def Node.place : Node → Place
  | .file g => .file g
  | .locked => .dir []
  | .dir entries => .dir entries.files

/-- What the names lead to; of two files with one name it is the first. -/
def Place.walk : Place → List (List Nat) → Option Place
  | x, [] => some x
  | .file _, _ :: _ => none
  | .dir files, name :: names =>
    match files.find? fun x => x.1 = name with
    | some x => x.2.place.walk names
    | none => none

mutual
/-- The bytes of names are bytes. -/
def Node.Chars : Node → Prop
  | .dir entries => entries.Chars
  | _ => True

def Entries.Chars : Entries → Prop
  | .nil => True
  | .cons name node rest => (∀ c ∈ name.bytes, c < 256) ∧ node.Chars ∧ rest.Chars
end

/-- A file with a name that the server can compare. -/
def Plain (x : List Nat × Node) : Prop := (∀ c ∈ x.1, c ≠ 0 ∧ c < 256) ∧ x.2.Chars

theorem listed_plain {path : List Nat} {node : Node} (hchars : ∀ c ∈ path, c < 256) (hnul : 0 ∉ path)
    (hnode : node.Chars) : ∀ x ∈ node.listed path, Plain x := by
  have hbase : ∀ c ∈ basename path, c ≠ 0 ∧ c < 256 := by
    intro c hc
    refine ⟨fun h0 => basename_noNul hnul (h0 ▸ hc), ?_⟩
    unfold basename at hc
    split_ifs at hc with hp
    · rw [List.mem_singleton.mp hc]
      decide
    · dsimp only at hc
      split_ifs at hc with hcut
      · rw [List.mem_singleton.mp hc]
        decide
      · exact hchars c ((List.rdropWhile_prefix _ _).subset (mem_of_afterSlash hc))
  intro x hx
  cases node with
  | locked => cases hx
  | file g =>
    obtain rfl := List.mem_singleton.mp hx
    exact ⟨fun c hc => ⟨fun h0 => hnul (h0 ▸ mem_of_afterSlash hc), hchars c (mem_of_afterSlash hc)⟩, trivial⟩
  | dir entries =>
    obtain rfl := List.mem_singleton.mp hx
    exact ⟨fun c hc => hbase c (List.mem_of_mem_take hc), hnode⟩

theorem files_plain : ∀ entries : Entries, entries.Chars → ∀ x ∈ entries.files, Plain x
  | .nil, _, x, hx => by cases hx
  | .cons name node rest, h, x, hx => by
    obtain ⟨hname, hnode, hrest⟩ := h
    unfold Entries.files at hx
    split_ifs at hx with hdot
    · exact files_plain rest hrest x hx
    · rcases List.mem_append.mp hx with hx | hx
      · exact listed_plain hname name.noNul hnode x hx
      · exact files_plain rest hrest x hx

-- ---------------------------------------------------------------------------
-- Names and files of the server
-- ---------------------------------------------------------------------------

/-- A string and the zeros after it, up to the first of them. -/
theorem takeWhile_name (hlen : name.length < n) (hz : ∀ c ∈ name, c ≠ 0) :
    ((List.range n).map fun m => name.getD m 0).takeWhile (· ≠ 0) = name := by
  induction name generalizing n with
  | nil =>
    obtain ⟨m, rfl⟩ : ∃ m, n = m + 1 := ⟨n - 1, by simp at hlen; omega⟩
    rw [List.range_succ_eq_map, List.map_cons, List.takeWhile_cons_of_neg (by simp)]
  | cons c name ih =>
    obtain ⟨m, rfl⟩ : ∃ m, n = m + 1 := ⟨n - 1, by simp at hlen; omega⟩
    have hc : c ≠ 0 := hz c List.mem_cons_self
    have htail := ih (Nat.lt_of_succ_lt_succ hlen) fun c' hc' => hz c' (List.mem_cons_of_mem c hc')
    rw [List.range_succ_eq_map, List.map_cons, List.map_map,
      List.takeWhile_cons_of_pos (by simpa using hc)]
    exact congrArg₂ List.cons rfl htail

/-- The files of a directory, in one list. -/
theorem flatMap_files {α : Type} (F : Nat → α) (m : Nat) :
    ((List.range' 0 n).flatMap fun i => (List.range m).map fun k => F (m * i + k)) = (List.range (m * n)).map F := by
  induction n with
  | zero => simp
  | succ n ih =>
    rw [List.range'_concat, List.flatMap_append, ih, Nat.mul_succ, List.range_add, List.map_append]
    simp [List.map_map, Function.comp_def]

theorem place_link {c : Cell} (hplace : img.place f i = some c) : img.cell c = img.link f i := by
  unfold Image.place at hplace
  unfold Image.link
  split_ifs at hplace ⊢ with hd htable
  · cases hplace
    rfl
  · cases hplace
    rfl

/-- A file has all of its blocks. -/
theorem Extent.full (he : Extent img lo hi f n) (hlo : 0 < lo) : img.Full f n := by
  intro i hi'
  have hlink := (he.link i hi').1
  have hplace : ∃ c, img.place f i = some c := by
    unfold Image.place
    by_cases hd : i < NDIRECT
    · rw [if_pos hd]
      exact ⟨_, rfl⟩
    · have htable := (he.table (by omega)).1
      rw [if_neg hd, if_pos (by omega)]
      exact ⟨_, rfl⟩
  obtain ⟨c, hc⟩ := hplace
  refine ⟨c, hc, ?_⟩
  rw [place_link hc]
  omega

namespace Serves

variable (h : Serves img use data st)
include h

/-- Block `i` of a file is where the tool has put it. -/
theorem placed (hf : IsFile use f) (he : Extent img lo hi f n) (hlo : 0 < lo) (hlt : i < n) :
    st.Names f.at.1 f.at.2 i (img.link f i) ∧ use (img.link f i) = some (.content (img.file f).isDir) := by
  obtain ⟨c, u, hc, hne, hplace, hs⟩ := h.named hf (he.full hlo) he.few hlt
  have hcell := place_link hplace
  have hnames : st.Names f.at.1 f.at.2 i (img.link f i) := by
    refine ⟨c.at.1, c.at.2, hs, fun h0 => hne ?_, ?_⟩
    · rw [h.cellWord hc] at h0
      rw [← h.toNat_cell hc, h0]
      rfl
    · rw [h.cellWord hc, h.toNat_cell hc, hcell]
  have hslot : FileSlot use f.at.1 f.at.2 := fileSlot_iff.mpr ⟨f, hf, rfl⟩
  have huse := h.layout.names_use hslot hnames
  rw [h.isDir hf] at huse
  exact ⟨hnames, huse⟩

variable (hf : IsFile use f) (hh : Holding img lo hi f files) (hlo : 0 < lo)
include hf hh hlo

theorem entry_isFile (he : e < FILE2BLK * dirBlocks files.length) : IsFile use (img.entry f e) := by
  have hdir : (img.file f).isDir = true := by
    unfold File.isDir
    rw [hh.type]
    rfl
  have huse := (h.placed hf hh.blocks hlo (Nat.div_lt_of_lt_mul he)).2
  rw [hdir] at huse
  exact .slot huse (Nat.mod_lt e (by decide))

/-- What `dir_lookup` goes through. -/
theorem files_eq : st.files f.at.1 f.at.2 =
    (List.range (FILE2BLK * dirBlocks files.length)).map fun e => (img.entry f e).at := by
  have hblocks : st.dirBlocks f.at.1 f.at.2 = dirBlocks files.length := by
    have hword : st.word f.at.1 (f.at.2 + W_SIZE) = BitVec.ofNat 32 (img.file f).fSize := by
      rw [h.fileWord hf (by decide)]
      rfl
    have hfew : dirBlocks files.length ≤ 1024 := hh.blocks.few
    unfold FsState.dirBlocks
    rw [hword, BitVec.toNat_ofNat, hh.size]
    simp only [BY2BLK, Mos.Kern.BY2PG]
    omega
  have hblock : ∀ m < dirBlocks files.length, st.blockOf f.at.1 f.at.2 m = img.link f m := by
    intro m hm
    obtain ⟨b', j', hs, -, hlink⟩ := (h.placed hf hh.blocks hlo hm).1
    unfold FsState.blockOf
    rw [hs, hlink]
  unfold FsState.files FsState.filesFrom
  rw [hblocks, ← flatMap_files]
  refine List.flatMap_congr fun m hm => List.map_congr_left fun k hk => ?_
  have hm' : m < dirBlocks files.length := by simpa using hm
  rw [entry_eq img f (List.mem_range.mp hk), hblock m hm']
  rfl

omit hf hh hlo in
theorem name_short {g : FilePtr} (hname : HasName (img.file g) name) (hplain : ∀ c ∈ name, c ≠ 0 ∧ c < 256) :
    name.length < MAXNAMELEN := by
  obtain ⟨k, hk, h0⟩ := h.image.tidy.room.names g
  rw [hname k] at h0
  by_contra hn
  have hlt : k < name.length := by omega
  rw [List.getD_eq_getElem _ _ hlt] at h0
  exact (hplain _ (List.getElem_mem hlt)).1 h0

omit hf hh hlo in
/-- A name as the server reads it. -/
theorem fileName {g : FilePtr} (hg : IsFile use g) (hname : HasName (img.file g) name)
    (hplain : ∀ c ∈ name, c ≠ 0 ∧ c < 256) : st.fileName g.at.1 g.at.2 = name := by
  have hlen := h.name_short hname hplain
  have hbytes : (List.range MAXNAMELEN).map (st.byte g.at.1 g.at.2) =
      (List.range MAXNAMELEN).map fun m => name.getD m 0 := by
    refine List.map_congr_left fun m hm => ?_
    rw [h.nameByte hg (List.mem_range.mp hm), hname m]
    refine Nat.mod_eq_of_lt ?_
    by_cases hlt : m < name.length
    · rw [List.getD_eq_getElem _ _ hlt]
      exact (hplain _ (List.getElem_mem hlt)).2
    · rw [List.getD_eq_default _ _ (Nat.not_lt.mp hlt)]
      decide
  unfold FsState.fileName
  rw [hbytes]
  exact takeWhile_name hlen fun c hc => (hplain c hc).1

variable (hplain : ∀ x ∈ files, Plain x)
include hplain

/-- Whether file `e` of a directory has a name. -/
theorem named_iff (hname : name ≠ []) (he : e < FILE2BLK * dirBlocks files.length) :
    st.named name (img.entry f e).at = true ↔ ∃ x, files[e]? = some x ∧ x.1 = name := by
  have hfile := h.entry_isFile hf hh hlo he
  unfold FsState.named
  rw [decide_eq_true_eq]
  by_cases hlt : e < files.length
  · have hx : files[e]? = some files[e] := List.getElem?_eq_getElem hlt
    rw [h.fileName hfile (hh.names e _ hx) (hplain _ (List.getElem_mem hlt)).1, hx]
    simp
  · have hzero : HasName (img.file (img.entry f e)) [] := by
      rw [hh.free e (Nat.not_lt.mp hlt) he]
      exact fun _ => rfl
    rw [h.fileName hfile hzero fun c hc => (List.not_mem_nil hc).elim, List.getElem?_eq_none (Nat.not_lt.mp hlt)]
    simp [Ne.symm hname]

/-- **`dir_lookup` finds what the host has**: the first file with the name, or none. -/
theorem lookup_eq (hname : name ≠ []) :
    match files.find? fun x => x.1 = name with
    | some x => ∃ e, files[e]? = some x ∧ st.lookup f.at.1 f.at.2 name = some (img.entry f e).at
    | none => st.lookup f.at.1 f.at.2 name = none := by
  have hiff := fun e he => h.named_iff hf hh hlo hplain hname (e := e) he
  unfold FsState.lookup
  rw [h.files_eq hf hh hlo, List.find?_map]
  cases hfind : files.find? fun x => x.1 = name with
  | some x =>
    obtain ⟨hx, e, he, hget, hfirst⟩ := List.find?_eq_some_iff_getElem.mp hfind
    have hlt : e < FILE2BLK * dirBlocks files.length := Nat.lt_of_lt_of_le he (le_dirBlocks _)
    have hsome : files[e]? = some x := by rw [List.getElem?_eq_getElem he, hget]
    refine ⟨e, hsome, ?_⟩
    have hrange : (List.range (FILE2BLK * dirBlocks files.length)).find?
        (st.named name ∘ fun e => (img.entry f e).at) = some e := by
      rw [List.find?_range_eq_some]
      refine ⟨(hiff e hlt).mpr ⟨x, hsome, by simpa using hx⟩, List.mem_range.mpr hlt, fun k hk => ?_⟩
      rw [Bool.not_eq_true', Bool.eq_false_iff]
      intro hnamed
      obtain ⟨y, hy, hyname⟩ := (hiff k (Nat.lt_trans hk hlt)).mp hnamed
      have hnot := hfirst k hk
      obtain ⟨_, rfl⟩ := List.getElem?_eq_some_iff.mp hy
      simp [hyname] at hnot
    rw [hrange]
    rfl
  | none =>
    have hrange : (List.range (FILE2BLK * dirBlocks files.length)).find?
        (st.named name ∘ fun e => (img.entry f e).at) = none := by
      rw [List.find?_eq_none]
      intro e he hnamed
      obtain ⟨y, hy, hyname⟩ := (hiff e (List.mem_range.mp he)).mp hnamed
      have hnot := List.find?_eq_none.mp hfind y (List.mem_of_getElem? hy)
      simp [hyname] at hnot
    rw [hrange]
    rfl

end Serves

-- ---------------------------------------------------------------------------
-- Paths
-- ---------------------------------------------------------------------------

/-- The file is what the host has. -/
def IsAt (img : Image) (f : FilePtr) : Place → Prop
  | .file g => (img.file f).fType = FTYPE_REG ∧ (img.file f).fSize = g.size % 2 ^ 32 ∧
      ∃ lo hi, 0 < lo ∧ Extent img lo hi f g.reads
  | .dir files => (∃ lo hi, 0 < lo ∧ Holding img lo hi f files) ∧ ∀ x ∈ files, Plain x

theorem Stored.isAt {node : Node} (hs : Stored img lo hi node f) (hlo : 0 < lo) (hchars : node.Chars) :
    IsAt img f node.place := by
  cases node with
  | locked => cases hs
  | file g =>
    cases hs with
    | file htype hsize hblocks => exact ⟨htype, hsize, lo, hi, hlo, hblocks⟩
  | dir entries => exact ⟨⟨lo, hi, hlo, hs.holding⟩, files_plain entries hchars⟩

/-- **The server goes where the host goes.** -/
theorem Serves.resolve_eq (h : Serves img use data st) (hf : IsFile use f) {x : Place} (hx : IsAt img f x)
    (dir : Option Nat) {names : List (List Nat)} (hnames : ∀ name ∈ names, name ≠ []) :
    match x.walk names with
    | some y => ∃ g dir', IsFile use g ∧ IsAt img g y ∧
        st.resolve dir f.at.1 f.at.2 names = ⟨0, dir', some (addr g.at.1 g.at.2), []⟩
    | none => (st.resolve dir f.at.1 f.at.2 names).r < 0 ∧ (st.resolve dir f.at.1 f.at.2 names).file = none := by
  induction names generalizing f x dir with
  | nil =>
    have hself : x.walk [] = some x := by cases x <;> rfl
    rw [hself]
    exact ⟨f, dir, hf, hx, rfl⟩
  | cons name names ih =>
    have hname := hnames name List.mem_cons_self
    have hrest : ∀ name ∈ names, name ≠ [] := fun n hn => hnames n (List.mem_cons_of_mem name hn)
    have hbad : MAXNAMELEN ≤ name.length →
        st.resolve dir f.at.1 f.at.2 (name :: names) = ⟨-E_BAD_PATH, none, none, []⟩ := fun hlen => if_pos hlen
    cases x with
    | file g =>
      show (st.resolve dir f.at.1 f.at.2 (name :: names)).r < 0 ∧ _
      by_cases hlen : MAXNAMELEN ≤ name.length
      · rw [hbad hlen]
        exact ⟨by decide, rfl⟩
      · have hreg : st.isDir f.at.1 f.at.2 = false := by
          rw [h.isDir hf, File.isDir, hx.1]
          rfl
        unfold FsState.resolve
        rw [if_neg hlen, hreg, if_neg Bool.false_ne_true]
        exact ⟨by decide, rfl⟩
    | dir files =>
      obtain ⟨⟨lo, hi, hlo, hh⟩, hplain⟩ := hx
      have hdir : st.isDir f.at.1 f.at.2 = true := by
        rw [h.isDir hf, File.isDir, hh.type]
        rfl
      have hlook := h.lookup_eq hf hh hlo hplain hname
      unfold Place.walk
      cases hfind : files.find? fun x => x.1 = name with
      | none =>
        rw [hfind] at hlook
        dsimp only at hlook ⊢
        by_cases hlen : MAXNAMELEN ≤ name.length
        · rw [hbad hlen]
          exact ⟨by decide, rfl⟩
        · unfold FsState.resolve
          rw [if_neg hlen, if_pos hdir, hlook]
          dsimp only
          have hneg : (-E_NOT_FOUND : Int) < 0 := by decide
          split_ifs
          · exact ⟨hneg, rfl⟩
          · exact ⟨hneg, rfl⟩
      | some y =>
        rw [hfind] at hlook
        dsimp only at hlook ⊢
        obtain ⟨e, hget, hlook⟩ := hlook
        have hmem := List.mem_of_getElem? hget
        have heq : y.1 = name := by simpa using List.find?_some hfind
        have hlt : e < FILE2BLK * dirBlocks files.length :=
          Nat.lt_of_lt_of_le (List.getElem?_eq_some_iff.mp hget).1 (le_dirBlocks _)
        have hlen : ¬ MAXNAMELEN ≤ name.length :=
          Nat.not_le.mpr (heq ▸ h.name_short (hh.names e y hget) (hplain y hmem).1)
        have hstep : st.resolve dir f.at.1 f.at.2 (name :: names) =
            st.resolve (some (addr f.at.1 f.at.2)) (img.entry f e).at.1 (img.entry f e).at.2 names := by
          conv_lhs => unfold FsState.resolve
          rw [if_neg hlen, if_pos hdir, hlook]
        rw [hstep]
        exact ih (h.entry_isFile hf hh hlo hlt) ((hh.files e y hget).isAt hlo (hplain y hmem).2) _ hrest

-- ---------------------------------------------------------------------------
-- The whole way
-- ---------------------------------------------------------------------------

/-- The root of an image that is written has all that was given, in order. -/
theorem fsformat_root {args : List Arg} {written : Nat → Bool} (hrun : fsformat args written .zero = .ok ((), img)) :
    Holding img 3 img.nextbno .root (rootFiles (accepted args)) := by
  obtain ⟨img₀, hinit, -, hr, hd⟩ := initDisk_run
  obtain ⟨_, hinit', -, -, hdir, -⟩ := initDisk_tidy
  obtain ⟨-, rfl⟩ := Prod.mk.inj (Except.ok.inj (hinit.symm.trans hinit'))
  have hempty : Building img₀ 3 .root [] := ⟨hr, hd, fun e x hx => by cases hx⟩
  unfold fsformat at hrun
  rw [run_bind hinit] at hrun
  by_cases hargs : args = []
  · rw [if_pos hargs] at hrun
    cases hrun
  rw [if_neg hargs] at hrun
  obtain ⟨_, img₁, hwrite, hrun₁⟩ := run_bind_eq_ok.mp hrun
  obtain ⟨_, img₂, hflush, hfinish⟩ := run_bind_eq_ok.mp hrun₁
  obtain ⟨hbuilt, htype⟩ := writeArgs_builds args hempty hwrite
  obtain ⟨-, -, -, hf⟩ := (flushBitmap_flushed True hbuilt.room.high).ok hflush
  have himg := finishFs_run hfinish
  have hrest := hf.rest
  have hroot : (img₁.file .root).fType = FTYPE_DIR := htype.trans (of_decide_eq_true hdir)
  refine hbuilt.holding hroot ?_ ?_ fun b hb => ?_
  · rw [himg, hrest]
  · rw [himg, hrest]
  · have hword : img.word = img₂.word := by rw [himg]
    rw [hword]
    exact hf.other b (by omega)

/-- What `walk_path` has to come to, for what the host has at the path: the file is of the same kind
and size, and each of its blocks is the one that the data went into. -/
def Reaches (st : FsState) (data : Nat → Block) (w : Walk) : Option Place → Prop
  | some (.file g) => w.r = 0 ∧ ∃ b i, w.file = some (addr b i) ∧ st.isDir b i = false ∧
      (st.word b (i + W_SIZE)).toNat = g.size % 2 ^ 32 ∧ ∀ n < g.reads, ∃ d, st.Names b i n d ∧ st.contents d = data d
  | some (.dir _) => w.r = 0 ∧ ∃ b i, w.file = some (addr b i) ∧ st.isDir b i = true
  | none => w.r < 0 ∧ w.file = none

theorem Serves.reaches (h : Serves img use data st) (hroot : IsAt img .root (.dir files)) {names : List (List Nat)}
    (hnames : ∀ name ∈ names, name ≠ []) :
    Reaches st data (st.resolve none 1 2 names) ((Place.dir files).walk names) := by
  have hres := h.resolve_eq .root hroot none hnames
  cases hwalk : (Place.dir files).walk names with
  | none =>
    rw [hwalk] at hres
    exact hres
  | some y =>
    rw [hwalk] at hres
    obtain ⟨g, dir', hg, hat, hres⟩ := hres
    have hw : st.resolve none 1 2 names = ⟨0, dir', some (addr g.at.1 g.at.2), []⟩ := hres
    rw [hw]
    cases y with
    | dir files' =>
      obtain ⟨⟨lo, hi, -, hh⟩, -⟩ := hat
      refine ⟨rfl, g.at.1, g.at.2, rfl, ?_⟩
      rw [h.isDir hg, File.isDir, hh.type]
      rfl
    | file host =>
      obtain ⟨htype, hsize, lo, hi, hlo, hext⟩ := hat
      have hreg : (img.file g).isDir = false := by
        rw [File.isDir, htype]
        rfl
      refine ⟨rfl, g.at.1, g.at.2, rfl, ?_, ?_, fun n hn => ⟨img.link g n, ?_⟩⟩
      · rw [h.isDir hg, hreg]
      · have hword : st.word g.at.1 (g.at.2 + W_SIZE) = BitVec.ofNat 32 (img.file g).fSize := by
          rw [h.fileWord hg (by decide)]
          rfl
        rw [hword, BitVec.toNat_ofNat, hsize, Nat.mod_mod]
      · obtain ⟨hnamed, huse⟩ := h.placed hg hext hlo hn
        rw [hreg] at huse
        have htype : img.type (img.link g n) = BLOCK_DATA := by
          have hty := h.image.tidy.types (img.link g n)
          rw [huse] at hty
          exact hty
        refine ⟨hnamed, ?_⟩
        rw [h.started.contents _ (h.pos huse)]
        funext i
        have hne : BLOCK_DATA ≠ BLOCK_SUPER ∧ BLOCK_DATA ≠ BLOCK_FILE ∧ ¬ (BLOCK_DATA = BLOCK_INDEX ∨ BLOCK_DATA = BLOCK_BMAP) := by
          decide
        rw [Image.block, htype, if_neg hne.1, if_neg hne.2.1, if_neg hne.2.2, if_pos rfl]

/-- **From the host to the server.** On an image that `fsformat` writes, `walk_path` comes to what the host
has at the path, or finds nothing where the host has nothing, unless the kernel has no page left for a block. -/
theorem fsformat_walks {args : List Arg} {written : Nat → Bool} (hrun : fsformat args written .zero = .ok ((), img))
    (hchars : ∀ g ∈ accepted args, (∀ c ∈ g.path, c < 256) ∧ g.node.Chars) (data : Nat → Block) {mem : Nat → Bool}
    (hmem : ∀ n < 4, mem n = true) :
    ∃ st, fsInit (emptyCache (img.block data) mem) = .ok ((), st) ∧ ∀ path, (∀ c ∈ path, c ≠ 0) →
      (∃ w st', walkPath path st = .ok (w, st') ∧
        Reaches st data w ((Place.dir (rootFiles (accepted args))).walk (parts slash path))) ∨
      (walkPath path st = .error .kernelPanic ∧ ∃ n, mem n = false) := by
  obtain ⟨use, hfin⟩ := fsformat_tidy hrun
  obtain ⟨st, hinit, hst, k, hasked⟩ := hfin.starts data hmem
  have hplain : ∀ x ∈ rootFiles (accepted args), Plain x := by
    intro x hx
    obtain ⟨g, hg, hx⟩ := List.mem_flatMap.mp hx
    exact listed_plain (hchars g hg).1 g.noNul (hchars g hg).2 x hx
  have hroot : IsAt img .root (.dir (rootFiles (accepted args))) :=
    ⟨⟨3, img.nextbno, by decide, fsformat_root hrun⟩, hplain⟩
  refine ⟨st, hinit, fun path hpath => ?_⟩
  have hruns := hst.dirTree.of_walk (hst.dirTree.walkTree.walkPath_runs hpath)
  cases hwalk : walkPath path st with
  | error e =>
    obtain ⟨rfl, n, hnone⟩ := hruns.error hwalk
    exact Or.inr ⟨rfl, n + k, (hasked n).symm.trans hnone⟩
  | ok r =>
    obtain ⟨w, st'⟩ := r
    obtain ⟨_, _, -, rfl⟩ := hruns.ok hwalk
    exact Or.inl ⟨_, st', rfl, hst.reaches hroot fun name hname => ne_nil_of_mem_parts hname⟩

/-- The path `/d//a` on an image of the directory `d` with a file `a` of 5000 bytes in it. -/
theorem fsformat_walks_small : ∃ (img : Image) (st : FsState) (w : Walk) (st' : FsState),
    fsInit (emptyCache (img.block fun _ => zeroBlock) fun _ => true) = .ok ((), st) ∧
      walkPath [slash, 100, slash, slash, 97] st = .ok (w, st') ∧
      Reaches st (fun _ => zeroBlock) w (some (.file (.ofBytes 5000))) := by
  obtain ⟨img, hrun⟩ := smallDir_done
  have hchars : ∀ g ∈ accepted [.given smallDir], (∀ c ∈ g.path, c < 256) ∧ g.node.Chars := by
    intro g hg
    obtain rfl := List.mem_singleton.mp hg
    exact ⟨by decide, by decide, trivial, trivial⟩
  obtain ⟨st, hinit, hwalks⟩ := fsformat_walks hrun hchars (fun _ => zeroBlock) fun _ _ => rfl
  rcases hwalks [slash, 100, slash, slash, 97] (by decide) with ⟨w, st', hw, hreach⟩ | ⟨-, n, hn⟩
  · exact ⟨img, st, w, st', hinit, hw, hreach⟩
  · cases hn

end Mos.Tools
