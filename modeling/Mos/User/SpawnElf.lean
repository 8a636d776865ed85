import Mos.User.FileIo

/-!
# MOS on RISC-V — the program headers of a spawned program

`spawn` reads the program headers of a file one after another to the start of the buffer
that holds the ELF header, whose fields `e_phentsize` and `e_phnum` lead the loop. The
kernel has the whole image, and reads the headers where they are.

Main results:

* `spawnPhdrs_right_iff` — `spawn` examines the headers of the table, inside its buffer,
  exactly if the header laid over the ELF header leaves the loop on its way;
* `laysRight_of_size` — entries of 32 to 42 bytes do;
* `loadIcodePhdrs_eq` — the kernel examines the headers of the table.
-/

namespace Mos.User

open Mos.Lib Mos.Kern

-- ---------------------------------------------------------------------------
-- include/elf.h
-- ---------------------------------------------------------------------------

def EHDR_SIZE : Nat := 52
def PHDR_SIZE : Nat := 32
def ELFBUF_SIZE : Nat := 512

/-- A little-endian `uint16_t`. -/
def loadHalf (m : ByteMem) (a : Nat) : Nat := (m a).toNat + 2 ^ 8 * (m (a + 1)).toNat

/-- The fields of an `Elf32_Ehdr` at the start of `m`. -/
def eType (m : ByteMem) : Nat := loadHalf m 16
def ePhoff (m : ByteMem) : Nat := loadWord m 28
def ePhentsize (m : ByteMem) : Nat := loadHalf m 42
def ePhnum (m : ByteMem) : Nat := loadHalf m 44

/-- `elf_from(binary, size)` does not return `NULL`. -/
def elfFrom (binary : ByteMem) (size : Nat) : Bool :=
  decide (EHDR_SIZE ≤ size ∧ binary 0 = 0x7f ∧ binary 1 = 0x45 ∧ binary 2 = 0x4c ∧ binary 3 = 0x46 ∧
    eType binary = 2)

/-- `Elf32_Phdr`. -/
structure Elf32Phdr where
  pType : Nat
  pOffset : Nat
  pVaddr : Nat
  pPaddr : Nat
  pFilesz : Nat
  pMemsz : Nat
  pFlags : Nat
  pAlign : Nat
  deriving DecidableEq, Repr

def phdrAt (m : ByteMem) (a : Nat) : Elf32Phdr :=
  ⟨loadWord m a, loadWord m (a + 4), loadWord m (a + 8), loadWord m (a + 12), loadWord m (a + 16),
    loadWord m (a + 20), loadWord m (a + 24), loadWord m (a + 28)⟩

/-- A file that `elf_from` accepts, with its table of program headers inside. Behind its
end, `bytes` is what the kernel has behind the image. -/
structure ElfFile where
  bytes : ByteMem
  size : Nat
  accepted : elfFrom bytes size = true
  table : ePhoff bytes + ePhentsize bytes * ePhnum bytes ≤ size
  sizeMax : size ≤ MAXFILESIZE

/-- A header a loader examines, and where in the file it is. -/
abbrev Examined := Nat × Elf32Phdr

-- ---------------------------------------------------------------------------
-- load_icode and spawn
-- ---------------------------------------------------------------------------

variable (f : ElfFile)

/-- The loop of `load_icode`, with `n` rounds to go. -/
def loadIcodeFrom : Nat → Nat → List Examined
  | 0, _ => []
  | n + 1, phOff => (phOff, phdrAt f.bytes phOff) :: loadIcodeFrom n ((phOff + ePhentsize f.bytes) % 2 ^ 32)

def loadIcodePhdrs : List Examined := loadIcodeFrom f (ePhnum f.bytes) (ePhoff f.bytes)

/-- How many bytes `file_read` copies. -/
def fileCount (n offset : Nat) : Nat :=
  if f.size < offset then 0
  else if f.size < (offset + n) % 2 ^ 32 then f.size - offset
  else n

/-- `seek`, and `readn` to `elfbuf`: a second `read` would be at the end of the file. -/
def readElfbuf (elfbuf : ByteMem) (offset n : Nat) : ByteMem := fun x =>
  if x < fileCount f n offset then f.bytes (offset + x) else elfbuf x

/-- A round of the loop of `spawn`: the header it examines, and how many bytes it has
written to `elfbuf`. -/
structure SpawnRound where
  phOff : Nat
  ph : Elf32Phdr
  written : Nat

/-- The loop of `spawn`, while loading a segment does not fail; no more than `fuel` rounds. -/
def spawnFrom : Nat → Nat → Nat → ByteMem → List SpawnRound
  | 0, _, _, _ => []
  | fuel + 1, idx, phOff, elfbuf =>
    if idx < ePhnum elfbuf then
      let n := ePhentsize elfbuf
      let elfbuf := readElfbuf f elfbuf phOff n
      ⟨phOff, phdrAt elfbuf 0, fileCount f n phOff⟩ ::
        spawnFrom fuel (idx + 1) ((phOff + ePhentsize elfbuf) % 2 ^ 32) elfbuf
    else []

/-- The loop of `spawn`, with `stack` in the buffer before; `e_phnum` has 16 bits. -/
def spawnRounds (stack : ByteMem) : List SpawnRound :=
  let elfbuf := readElfbuf f stack 0 ELFBUF_SIZE
  spawnFrom f (2 ^ 16) 0 (ePhoff elfbuf) elfbuf

def SpawnRound.examined (r : SpawnRound) : Examined := (r.phOff, r.ph)

-- ---------------------------------------------------------------------------
-- What spawn should do
-- ---------------------------------------------------------------------------

/-- Where header `k` of the table is. -/
def phdrOff (k : Nat) : Nat := ePhoff f.bytes + ePhentsize f.bytes * k

/-- `n` headers of the table, from header `k` on. -/
def storedFrom : Nat → Nat → List Examined
  | 0, _ => []
  | n + 1, k => (phdrOff f k, phdrAt f.bytes (phdrOff f k)) :: storedFrom n (k + 1)

/-- The headers of the table. -/
def storedPhdrs : List Examined := storedFrom f (ePhnum f.bytes) 0

/-- `spawn` examines the headers of the table, and stays inside its buffer. -/
def SpawnRight (stack : ByteMem) : Prop :=
  (spawnRounds f stack).map SpawnRound.examined = storedPhdrs f ∧
    ∀ r ∈ spawnRounds f stack, r.written ≤ ELFBUF_SIZE

/-- The ELF header, with header `k` laid over it. -/
def laidOver (k : Nat) : ByteMem := fun x =>
  if x < ePhentsize f.bytes then f.bytes (phdrOff f k + x) else f.bytes x

/-- Header `k` fits the buffer, is whole, and leaves the loop on its way. -/
structure LaysRight (k : Nat) : Prop where
  fits : ePhentsize f.bytes ≤ ELFBUF_SIZE
  whole : phdrAt (laidOver f k) 0 = phdrAt f.bytes (phdrOff f k)
  next : k + 1 < ePhnum f.bytes →
    ePhentsize (laidOver f k) = ePhentsize f.bytes ∧ k + 1 < ePhnum (laidOver f k)
  last : k + 1 = ePhnum f.bytes → ePhnum (laidOver f k) ≤ k + 1

-- ---------------------------------------------------------------------------
-- Fields
-- ---------------------------------------------------------------------------

variable {f} {m m' stack elfbuf : ByteMem} {k n : Nat}

theorem loadHalf_congr {a : Nat} (h₀ : m' a = m a) (h₁ : m' (a + 1) = m (a + 1)) : loadHalf m' a = loadHalf m a := by
  unfold loadHalf
  rw [h₀, h₁]

theorem loadHalf_lt (m : ByteMem) (a : Nat) : loadHalf m a < 2 ^ 16 := by
  have h₀ := (m a).isLt
  have h₁ := (m (a + 1)).isLt
  unfold loadHalf
  omega

/-- The memories agree on an ELF header. -/
def SameEhdr (m m' : ByteMem) : Prop := ∀ x < EHDR_SIZE, m x = m' x

theorem SameEhdr.phentsize (h : SameEhdr m m') : ePhentsize m = ePhentsize m' :=
  loadHalf_congr (h 42 (by decide)) (h 43 (by decide))

theorem SameEhdr.phnum (h : SameEhdr m m') : ePhnum m = ePhnum m' :=
  loadHalf_congr (h 44 (by decide)) (h 45 (by decide))

theorem SameEhdr.phoff (h : SameEhdr m m') : ePhoff m = ePhoff m' :=
  loadWord_congr fun x _ hx => h x (Nat.lt_of_lt_of_le hx (by decide))

theorem phdrAt_congr {a b : Nat} (h : ∀ x < PHDR_SIZE, m (a + x) = m' (b + x)) : phdrAt m a = phdrAt m' b := by
  have hword : ∀ i, i + 4 ≤ PHDR_SIZE → loadWord m (a + i) = loadWord m' (b + i) := fun i hi => by
    have hbyte : ∀ j < 4, m (a + i + j) = m' (b + i + j) := fun j hj => by
      rw [Nat.add_assoc, Nat.add_assoc]
      exact h (i + j) (by omega)
    unfold loadWord
    rw [h i (by omega), hbyte 1 (by decide), hbyte 2 (by decide), hbyte 3 (by decide)]
  have hfirst : loadWord m a = loadWord m' b := hword 0 (by decide)
  unfold phdrAt
  rw [hfirst, hword 4 (by decide), hword 8 (by decide), hword 12 (by decide), hword 16 (by decide),
    hword 20 (by decide), hword 24 (by decide), hword 28 (by decide)]

theorem SameEhdr.phdr (h : SameEhdr m m') : phdrAt m 0 = phdrAt m' 0 :=
  phdrAt_congr fun x hx => by
    rw [Nat.zero_add]
    exact h x (Nat.lt_trans hx (by decide))

-- ---------------------------------------------------------------------------
-- The table
-- ---------------------------------------------------------------------------

theorem EHDR_SIZE_le (f : ElfFile) : EHDR_SIZE ≤ f.size := (decide_eq_true_eq.mp f.accepted).1

/-- Header `k` is inside the file. -/
theorem phdrOff_le (hk : k < ePhnum f.bytes) : phdrOff f k + ePhentsize f.bytes ≤ f.size := by
  have hmul : ePhentsize f.bytes * k + ePhentsize f.bytes ≤ ePhentsize f.bytes * ePhnum f.bytes := by
    rw [← Nat.mul_succ]
    exact Nat.mul_le_mul_left _ hk
  have htable := f.table
  unfold phdrOff
  omega

theorem phdrOff_succ (f : ElfFile) (k : Nat) : phdrOff f (k + 1) = phdrOff f k + ePhentsize f.bytes := by
  unfold phdrOff
  rw [Nat.mul_succ, Nat.add_assoc]

theorem size_lt (f : ElfFile) : f.size < 2 ^ 31 := Nat.lt_of_le_of_lt f.sizeMax (by decide)

theorem loadIcodeFrom_eq (hn : k + n = ePhnum f.bytes) : loadIcodeFrom f n (phdrOff f k) = storedFrom f n k := by
  induction n generalizing k with
  | zero => rfl
  | succ n ih =>
    have hle := phdrOff_le (f := f) (k := k) (by omega)
    have hlt := size_lt f
    unfold loadIcodeFrom storedFrom
    rw [Nat.mod_eq_of_lt (by omega), ← phdrOff_succ, ih (by omega)]

/-- The kernel examines the headers of the table. -/
theorem loadIcodePhdrs_eq (f : ElfFile) : loadIcodePhdrs f = storedPhdrs f := by
  have h := loadIcodeFrom_eq (f := f) (k := 0) (n := ePhnum f.bytes) (Nat.zero_add _)
  unfold loadIcodePhdrs storedPhdrs
  rw [← h]
  rfl

-- ---------------------------------------------------------------------------
-- The rounds of spawn
-- ---------------------------------------------------------------------------

/-- A header of the table is read whole. -/
theorem fileCount_phdr (hk : k < ePhnum f.bytes) :
    fileCount f (ePhentsize f.bytes) (phdrOff f k) = ePhentsize f.bytes := by
  have hle := phdrOff_le hk
  have hlt := size_lt f
  unfold fileCount
  rw [if_neg (by omega), Nat.mod_eq_of_lt (by omega), if_neg (by omega)]

/-- The buffer of the first round. -/
theorem first_sameEhdr (f : ElfFile) (stack : ByteMem) :
    SameEhdr (readElfbuf f stack 0 ELFBUF_SIZE) f.bytes := by
  intro x hx
  have hsize := EHDR_SIZE_le f
  have hcount : x < fileCount f ELFBUF_SIZE 0 := by
    have hE : EHDR_SIZE = 52 := rfl
    have hB : ELFBUF_SIZE = 512 := rfl
    unfold fileCount
    rw [if_neg (Nat.not_lt_zero _)]
    split_ifs
    · omega
    · omega
  unfold readElfbuf
  rw [if_pos hcount, Nat.zero_add]

/-- Before round `k`, the buffer is the ELF header from behind a program header on. -/
def Behind (f : ElfFile) (elfbuf : ByteMem) : Prop :=
  ∀ x, ePhentsize f.bytes ≤ x → x < EHDR_SIZE → elfbuf x = f.bytes x

theorem Behind.laidOver (h : Behind f elfbuf) (hk : k < ePhnum f.bytes) :
    SameEhdr (readElfbuf f elfbuf (phdrOff f k) (ePhentsize f.bytes)) (laidOver f k) := by
  intro x hx
  unfold readElfbuf Mos.User.laidOver
  rw [fileCount_phdr hk]
  split_ifs with hlow
  · rfl
  · exact h x (by omega) hx

theorem Behind.read (h : Behind f elfbuf) (hk : k < ePhnum f.bytes) :
    Behind f (readElfbuf f elfbuf (phdrOff f k) (ePhentsize f.bytes)) := by
  intro x hlow hx
  unfold readElfbuf
  rw [fileCount_phdr hk, if_neg (by omega)]
  exact h x hlow hx

/-- The rounds are those for the headers from `k` on. -/
def RoundsRight (f : ElfFile) (rounds : List SpawnRound) (n k : Nat) : Prop :=
  rounds.map SpawnRound.examined = storedFrom f n k ∧ ∀ r ∈ rounds, r.written ≤ ELFBUF_SIZE

theorem spawnFrom_stop {fuel idx phOff : Nat} (h : ePhnum elfbuf ≤ idx) : spawnFrom f fuel idx phOff elfbuf = [] := by
  cases fuel with
  | zero => rfl
  | succ fuel => exact if_neg (by omega)

theorem spawnFrom_go {fuel idx phOff : Nat} (h : idx < ePhnum elfbuf) :
    spawnFrom f (fuel + 1) idx phOff elfbuf =
      ⟨phOff, phdrAt (readElfbuf f elfbuf phOff (ePhentsize elfbuf)) 0, fileCount f (ePhentsize elfbuf) phOff⟩ ::
        spawnFrom f fuel (idx + 1)
          ((phOff + ePhentsize (readElfbuf f elfbuf phOff (ePhentsize elfbuf))) % 2 ^ 32)
          (readElfbuf f elfbuf phOff (ePhentsize elfbuf)) := if_pos h

theorem roundsRight_cons {r : SpawnRound} {rounds : List SpawnRound} :
    RoundsRight f (r :: rounds) (n + 1) k ↔
      (r.phOff = phdrOff f k ∧ r.ph = phdrAt f.bytes (phdrOff f k) ∧ r.written ≤ ELFBUF_SIZE) ∧
        RoundsRight f rounds n (k + 1) := by
  have hstored : storedFrom f (n + 1) k = (phdrOff f k, phdrAt f.bytes (phdrOff f k)) :: storedFrom f n (k + 1) := rfl
  unfold RoundsRight
  rw [hstored, List.map_cons, List.cons.injEq, List.forall_mem_cons, SpawnRound.examined, Prod.mk.injEq]
  tauto

theorem roundsRight_nil {rounds : List SpawnRound} : RoundsRight f rounds 0 k ↔ rounds = [] := by
  constructor
  · exact fun h => List.map_eq_nil_iff.mp h.1
  · rintro rfl
    exact ⟨rfl, nofun⟩

/-- One round, at header `k`. -/
theorem spawnFrom_round (fuel n : Nat) (hk : k < ePhnum f.bytes) (hbehind : Behind f elfbuf)
    (hsize : ePhentsize elfbuf = ePhentsize f.bytes) (hnum : k < ePhnum elfbuf) :
    ∃ elfbuf', SameEhdr elfbuf' (laidOver f k) ∧ Behind f elfbuf' ∧
      (RoundsRight f (spawnFrom f (fuel + 1) k (phdrOff f k) elfbuf) (n + 1) k ↔
        (phdrAt (laidOver f k) 0 = phdrAt f.bytes (phdrOff f k) ∧ ePhentsize f.bytes ≤ ELFBUF_SIZE) ∧
          RoundsRight f (spawnFrom f fuel (k + 1) ((phdrOff f k + ePhentsize (laidOver f k)) % 2 ^ 32) elfbuf')
            n (k + 1)) := by
  have hover := hbehind.laidOver hk
  refine ⟨_, hover, hbehind.read hk, ?_⟩
  rw [spawnFrom_go hnum, hsize, roundsRight_cons, fileCount_phdr hk, hover.phdr, hover.phentsize, eq_self_iff_true,
    true_and]

theorem laysRight_from {P : Prop} (hk : k < ePhnum f.bytes) (h : LaysRight f k ↔ P) :
    (∀ j, k ≤ j → j < ePhnum f.bytes → LaysRight f j) ↔
      P ∧ ∀ j, k + 1 ≤ j → j < ePhnum f.bytes → LaysRight f j := by
  rw [← h]
  constructor
  · exact fun hall => ⟨hall k le_rfl hk, fun j hj => hall j (by omega)⟩
  · rintro ⟨hfirst, hrest⟩ j hj hlt
    rcases Nat.eq_or_lt_of_le hj with rfl | hlt'
    · exact hfirst
    · exact hrest j hlt' hlt

/-- Round `k` and those after it. The induction is on the headers that are left. -/
theorem spawnFrom_right_iff {fuel : Nat} (hn : k + (n + 1) = ePhnum f.bytes) (hfuel : n + 1 < fuel)
    (hbehind : Behind f elfbuf) (hsize : ePhentsize elfbuf = ePhentsize f.bytes) (hnum : k < ePhnum elfbuf) :
    RoundsRight f (spawnFrom f fuel k (phdrOff f k) elfbuf) (n + 1) k ↔
      ∀ j, k ≤ j → j < ePhnum f.bytes → LaysRight f j := by
  induction n generalizing k elfbuf fuel with
  | zero =>
    -- the last header: the loop has to stop
    obtain ⟨fuel, rfl⟩ : ∃ n', fuel = n' + 2 := ⟨fuel - 2, by omega⟩
    obtain ⟨elfbuf', hover, -, hround⟩ :=
      spawnFrom_round (fuel + 1) 0 (by omega) hbehind hsize hnum
    have hstop : spawnFrom f (fuel + 1) (k + 1) ((phdrOff f k + ePhentsize (laidOver f k)) % 2 ^ 32) elfbuf' = [] ↔
        ePhnum (laidOver f k) ≤ k + 1 := by
      rw [← hover.phnum]
      constructor
      · intro h
        by_contra hgo
        rw [spawnFrom_go (by omega)] at h
        cases h
      · exact spawnFrom_stop
    have hlays : LaysRight f k ↔ (phdrAt (laidOver f k) 0 = phdrAt f.bytes (phdrOff f k) ∧
        ePhentsize f.bytes ≤ ELFBUF_SIZE) ∧ ePhnum (laidOver f k) ≤ k + 1 :=
      ⟨fun h => ⟨⟨h.whole, h.fits⟩, h.last hn⟩,
        fun h => ⟨h.1.2, h.1.1, fun hlt => absurd hlt (by omega), fun _ => h.2⟩⟩
    rw [hround, roundsRight_nil, hstop, laysRight_from (by omega) hlays]
    exact ⟨fun h => ⟨h, fun j hj hlt => absurd hlt (by omega)⟩, fun h => h.1⟩
  | succ n ih =>
    obtain ⟨fuel, rfl⟩ : ∃ n', fuel = n' + 2 := ⟨fuel - 2, by omega⟩
    have hk : k < ePhnum f.bytes := by omega
    obtain ⟨elfbuf', hover, hread, hround⟩ := spawnFrom_round (fuel + 1) (n + 1) hk hbehind hsize hnum
    have hlays : LaysRight f k ↔ (phdrAt (laidOver f k) 0 = phdrAt f.bytes (phdrOff f k) ∧
        ePhentsize f.bytes ≤ ELFBUF_SIZE) ∧
          ePhentsize (laidOver f k) = ePhentsize f.bytes ∧ k + 1 < ePhnum (laidOver f k) :=
      ⟨fun h => ⟨⟨h.whole, h.fits⟩, h.next (by omega)⟩,
        fun h => ⟨h.1.2, h.1.1, fun _ => h.2, fun heq => absurd heq (by omega)⟩⟩
    have hle := phdrOff_le hk
    have hlt := size_lt f
    rw [hround, laysRight_from hk hlays]
    by_cases hnext : ePhentsize (laidOver f k) = ePhentsize f.bytes ∧ k + 1 < ePhnum (laidOver f k)
    · -- the loop goes on to the next header
      have hrest := ih (k := k + 1) (by omega) (show n + 1 < fuel + 1 by omega) hread (by rw [hover.phentsize, hnext.1])
        (by rw [hover.phnum]; exact hnext.2)
      rw [hnext.1, Nat.mod_eq_of_lt (by omega), ← phdrOff_succ, hrest]
      exact ⟨fun h => ⟨⟨h.1, rfl, hnext.2⟩, h.2⟩, fun h => ⟨h.1.1, h.2⟩⟩
    · refine iff_of_false (fun h => hnext ?_) fun h => hnext h.1.2
      obtain ⟨-, hrest⟩ := h
      by_cases hgo : k + 1 < ePhnum (laidOver f k)
      · -- it goes on, but elsewhere
        rw [spawnFrom_go (by rw [hover.phnum]; exact hgo), roundsRight_cons] at hrest
        have hoff : (phdrOff f k + ePhentsize (laidOver f k)) % 2 ^ 32 = phdrOff f (k + 1) := hrest.1.1
        have hhalf : ePhentsize (laidOver f k) < 2 ^ 16 := loadHalf_lt _ _
        rw [phdrOff_succ, Nat.mod_eq_of_lt (by omega)] at hoff
        exact ⟨by omega, hgo⟩
      · rw [spawnFrom_stop (by rw [hover.phnum]; omega)] at hrest
        exact nomatch hrest.1

-- ---------------------------------------------------------------------------
-- The loop of spawn
-- ---------------------------------------------------------------------------

/-- **The headers spawn examines.** -/
theorem spawnPhdrs_right_iff (f : ElfFile) (stack : ByteMem) :
    SpawnRight f stack ↔ ∀ k < ePhnum f.bytes, LaysRight f k := by
  have hsame := first_sameEhdr f stack
  have hnum : ePhnum f.bytes < 2 ^ 16 := loadHalf_lt _ _
  have hright : SpawnRight f stack ↔ RoundsRight f (spawnRounds f stack) (ePhnum f.bytes) 0 := Iff.rfl
  have hrounds : spawnRounds f stack =
      spawnFrom f (2 ^ 16) 0 (phdrOff f 0) (readElfbuf f stack 0 ELFBUF_SIZE) := by
    have hoff : phdrOff f 0 = ePhoff (readElfbuf f stack 0 ELFBUF_SIZE) := hsame.phoff.symm
    rw [hoff]
    rfl
  rw [hright, hrounds]
  cases hn : ePhnum f.bytes with
  | zero =>
    rw [spawnFrom_stop (by rw [hsame.phnum, hn])]
    exact iff_of_true (roundsRight_nil.mpr rfl) fun k hk => absurd hk (Nat.not_lt_zero k)
  | succ n =>
    rw [spawnFrom_right_iff (by omega) (by omega) (fun x _ hx => hsame x hx) hsame.phentsize
      (by rw [hsame.phnum]; omega), hn]
    exact ⟨fun h k hk => h k (Nat.zero_le k) hk, fun h k _ hk => h k hk⟩

/-- Entries of the usual size, or a little larger. -/
theorem laysRight_of_size (hlow : PHDR_SIZE ≤ ePhentsize f.bytes) (hhigh : ePhentsize f.bytes ≤ 42) (k : Nat) :
    LaysRight f k := by
  have hbehind : ∀ x, 42 ≤ x → laidOver f k x = f.bytes x := fun x hx => if_neg (by omega)
  have hsize : ePhentsize (laidOver f k) = ePhentsize f.bytes :=
    loadHalf_congr (hbehind 42 le_rfl) (hbehind 43 (by decide))
  have hnum : ePhnum (laidOver f k) = ePhnum f.bytes :=
    loadHalf_congr (hbehind 44 (by decide)) (hbehind 45 (by decide))
  refine ⟨le_trans hhigh (by decide), phdrAt_congr fun x hx => ?_, fun h => ⟨hsize, by rw [hnum]; exact h⟩,
    fun h => by rw [hnum, h]⟩
  rw [Nat.zero_add]
  exact if_pos (Nat.lt_of_lt_of_le hx hlow)

/-- A header with entries of 48 bytes, two of them, and zeros behind. -/
def wideBytes : ByteMem := fun x =>
  match x with
  | 0 => 0x7f
  | 1 => 0x45
  | 2 => 0x4c
  | 3 => 0x46
  | 16 => 2
  | 28 => 52
  | 42 => 48
  | 44 => 2
  | _ => 0

def wideFile : ElfFile := ⟨wideBytes, 148, by decide, by decide, by decide⟩

/-- The first header overwrites the count, and the second is not read. -/
theorem spawnPhdrs_wide : (spawnRounds wideFile fun _ => 0).length = 1 ∧ (storedPhdrs wideFile).length = 2 ∧
    ¬ SpawnRight wideFile fun _ => 0 := by
  have hspawn : (spawnRounds wideFile fun _ => 0).length = 1 := by rfl
  have hstored : (storedPhdrs wideFile).length = 2 := by rfl
  refine ⟨hspawn, hstored, fun h => ?_⟩
  have hlen := congrArg List.length h.1
  rw [List.length_map, hspawn, hstored] at hlen
  cases hlen

end Mos.User
