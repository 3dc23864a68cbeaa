import SimpleOs.Lib.Segments
import SimpleOs.Fs.Image

/-!
# ELF files

The headers of an ELF32 file in memory (include/elf.h:28-55), as `do_execl` and the loader of
the kernel read them, and the list of the segments to be copied. Both read the headers again
in every round of their loops, so what matters is that the file stays as it is:
`SameElf` says what a reader then finds.
-/

namespace SimpleOs

open ByteMem

section

variable (mem : Mem) (file : Addr)

/-- The fields of an ELF header and of the program header number `i` that
    `do_execl` reads (include/elf.h:28-55). -/
def eEntry : BitVec 32 := readWord mem (file + 24)
def ePhoff : BitVec 32 := readWord mem (file + 28)
def ePhnum : ℕ := (readHalf mem (file + 44)).toNat
def phdr (i : ℕ) : Addr := file + ePhoff mem file + BitVec.ofNat 32 (32 * i)
def pOffset (i : ℕ) : BitVec 32 := readWord mem (phdr mem file i + 4)
def pVaddr (i : ℕ) : BitVec 32 := readWord mem (phdr mem file i + 8)
def pFilesz (i : ℕ) : ℕ := (readWord mem (phdr mem file i + 16)).toNat
def pMemsz (i : ℕ) : ℕ := (readWord mem (phdr mem file i + 20)).toNat

/-- The program header number `i` exists and is a PT_LOAD. -/
def PtLoad (i : ℕ) : Prop := i < ePhnum mem file ∧ readWord mem (phdr mem file i) = 1

instance (i : ℕ) : Decidable (PtLoad mem file i) := inferInstanceAs (Decidable (_ ∧ _))

/-- The program headers and the segments lie inside the `size` bytes at `file`. -/
structure ElfFile (size : ℕ) : Prop where
  header : 52 ≤ size
  phdrs : (ePhoff mem file).toNat + 32 * ePhnum mem file ≤ size
  segments : ∀ i, PtLoad mem file i → (pOffset mem file i).toNat + pFilesz mem file i ≤ size

/-- The `size` bytes at `file` are an ELF32 executable. -/
structure IsElf (size : ℕ) : Prop where
  magic : mem file = 0x7f ∧ mem (file + 1) = 0x45 ∧ mem (file + 2) = 0x4c ∧ mem (file + 3) = 0x46
  elfClass : mem (file + 4) = 1
  type : readHalf mem (file + 16) = 2
  header : 52 ≤ size
  phdrs : (ePhoff mem file).toNat + 32 * ePhnum mem file ≤ size
  segments : ∀ i, PtLoad mem file i → (pOffset mem file i).toNat + pFilesz mem file i ≤ size

/-- An address of the `size` bytes at `file`. -/
def InFile (size : ℕ) (a : Addr) : Prop := ∃ i < size, a = file + BitVec.ofNat 32 i

/-- The PT_LOAD segments among the headers with the numbers `i..i+n-1`. -/
def segmentList (dest : ℕ → Addr) (i n : ℕ) : List Segment :=
  ((List.range' i n).filter (PtLoad mem file)).map fun i =>
    ⟨dest i, file + pOffset mem file i, pFilesz mem file i⟩

end

section

variable {mem mem' : Mem} {file file' : Addr} {size : ℕ}

theorem readWord_same (h : SameBytes mem mem' file file' size) {off : ℕ} (hoff : off + 4 ≤ size) :
    readWord mem' (file' + BitVec.ofNat 32 off) = readWord mem (file + BitVec.ofNat 32 off) := by
  apply readWord_congr
  intro i hi
  rw [add_ofNat_add, add_ofNat_add]
  exact h (off + i) (by omega)

theorem readHalf_same (h : SameBytes mem mem' file file' size) {off : ℕ} (hoff : off + 2 ≤ size) :
    readHalf mem' (file' + BitVec.ofNat 32 off) = readHalf mem (file + BitVec.ofNat 32 off) := by
  have h0 := h off (by omega)
  have h1 := h (off + 1) (by omega)
  rw [← add_ofNat_add, ← add_ofNat_add] at h1
  unfold readHalf
  rw [h0]
  exact congrArg (· ++ mem (file + BitVec.ofNat 32 off)) h1

theorem phdr_eq (i : ℕ) :
    phdr mem file i = file + BitVec.ofNat 32 ((ePhoff mem file).toNat + 32 * i) := by
  unfold phdr
  rw [← add_ofNat_add, BitVec.ofNat_toNat, BitVec.setWidth_eq]

/-- A copy of an executable has the same headers. -/
structure SameElf (mem mem' : Mem) (file file' : Addr) : Prop where
  entry : eEntry mem' file' = eEntry mem file
  phoff : ePhoff mem' file' = ePhoff mem file
  phnum : ePhnum mem' file' = ePhnum mem file
  word : ∀ i < ePhnum mem file, ∀ d ≤ 28, readWord mem' (phdr mem' file' i + BitVec.ofNat 32 d) =
    readWord mem (phdr mem file i + BitVec.ofNat 32 d)

theorem ElfFile.same (h : ElfFile mem file size) (hs : SameBytes mem mem' file file' size) :
    SameElf mem mem' file file' := by
  have hsize := h.header
  have hphdrs := h.phdrs
  have hphoff : ePhoff mem' file' = ePhoff mem file := readWord_same hs (by omega : 28 + 4 ≤ size)
  refine ⟨readWord_same hs (by omega : 24 + 4 ≤ size), hphoff,
    congrArg BitVec.toNat (readHalf_same hs (by omega : 44 + 2 ≤ size)), fun i hi d hd => ?_⟩
  rw [phdr_eq, phdr_eq, hphoff, add_ofNat_add, add_ofNat_add]
  exact readWord_same hs (by omega)

theorem IsElf.elfFile (h : IsElf mem file size) : ElfFile mem file size :=
  ⟨h.header, h.phdrs, h.segments⟩

theorem IsElf.same (h : IsElf mem file size) (hs : SameBytes mem mem' file file' size) :
    SameElf mem mem' file file' := h.elfFile.same hs

theorem SameElf.phdr_same (h : SameElf mem mem' file file) (i : ℕ) :
    phdr mem' file i = phdr mem file i := by
  unfold phdr
  rw [h.phoff]

theorem SameElf.type_same (h : SameElf mem mem' file file') {i : ℕ} (hi : i < ePhnum mem file) :
    readWord mem' (phdr mem' file' i) = readWord mem (phdr mem file i) := by
  have := h.word i hi 0 (by omega)
  rwa [show BitVec.ofNat 32 0 = 0 from rfl, show phdr mem' file' i + 0 = phdr mem' file' i from
    BitVec.add_zero _, show phdr mem file i + 0 = phdr mem file i from BitVec.add_zero _] at this

/-- A file that stays where it is. -/
theorem SameElf.type_in_place (h : SameElf mem mem' file file) {i : ℕ}
    (hi : i < ePhnum mem file) :
    readWord mem' (phdr mem file i) = readWord mem (phdr mem file i) := by
  have htype := h.type_same hi
  rwa [h.phdr_same] at htype

/-- The fields that a loader reads, of a file that stays where it is. -/
theorem SameElf.fields_in_place (h : SameElf mem mem' file file) {i : ℕ}
    (hi : i < ePhnum mem file) :
    readWord mem' (phdr mem file i + 4) = pOffset mem file i ∧
      readWord mem' (phdr mem file i + 8) = pVaddr mem file i ∧
      (readWord mem' (phdr mem file i + 16)).toNat = pFilesz mem file i := by
  have hword : ∀ d ≤ 28, readWord mem' (phdr mem file i + BitVec.ofNat 32 d) =
      readWord mem (phdr mem file i + BitVec.ofNat 32 d) := by
    intro d hd
    have hd' := h.word i hi d hd
    rwa [h.phdr_same] at hd'
  exact ⟨hword 4 (by omega), hword 8 (by omega), congrArg BitVec.toNat (hword 16 (by omega))⟩

theorem SameElf.ptLoad (h : SameElf mem mem' file file') {i : ℕ} :
    PtLoad mem' file' i ↔ PtLoad mem file i := by
  unfold PtLoad
  rw [h.phnum]
  constructor
  · intro hi
    exact ⟨hi.1, (h.type_same hi.1).symm.trans hi.2⟩
  · intro hi
    exact ⟨hi.1, (h.type_same hi.1).trans hi.2⟩

theorem SameElf.fields (h : SameElf mem mem' file file') {i : ℕ} (hi : PtLoad mem file i) :
    pOffset mem' file' i = pOffset mem file i ∧ pVaddr mem' file' i = pVaddr mem file i ∧
      pFilesz mem' file' i = pFilesz mem file i :=
  ⟨h.word i hi.1 4 (by omega), h.word i hi.1 8 (by omega),
    congrArg BitVec.toNat (h.word i hi.1 16 (by omega))⟩

theorem phdr_succ (i : ℕ) : phdr mem file i + 32 = phdr mem file (i + 1) := by
  rw [phdr_eq, phdr_eq, show (32 : Addr) = BitVec.ofNat 32 32 from rfl, add_ofNat_add]
  congr 2

/-! ## The segments -/

theorem segmentList_load {dest : ℕ → Addr} {i n : ℕ} (hi : PtLoad mem file i) :
    segmentList mem file dest i (n + 1) =
      ⟨dest i, file + pOffset mem file i, pFilesz mem file i⟩ ::
        segmentList mem file dest (i + 1) n := by
  unfold segmentList
  rw [List.range'_succ, List.filter_cons_of_pos (by simpa using hi), List.map_cons]

theorem segmentList_skip {dest : ℕ → Addr} {i n : ℕ} (hi : ¬ PtLoad mem file i) :
    segmentList mem file dest i (n + 1) = segmentList mem file dest (i + 1) n := by
  unfold segmentList
  rw [List.range'_succ, List.filter_cons_of_neg (by simpa using hi)]

theorem mem_segmentList {dest : ℕ → Addr} {i n : ℕ} {s : Segment} :
    s ∈ segmentList mem file dest i n ↔ ∃ i', i ≤ i' ∧ i' < i + n ∧ PtLoad mem file i' ∧
      s = ⟨dest i', file + pOffset mem file i', pFilesz mem file i'⟩ := by
  unfold segmentList
  simp only [List.mem_map, List.mem_filter, List.mem_range'_1, decide_eq_true_eq]
  constructor
  · rintro ⟨i', ⟨⟨hle, hlt⟩, hload⟩, rfl⟩
    exact ⟨i', hle, hlt, hload, rfl⟩
  · rintro ⟨i', hle, hlt, hload, rfl⟩
    exact ⟨i', ⟨⟨hle, hlt⟩, hload⟩, rfl⟩

/-- The segments of a file can be copied when their destinations are apart. -/
theorem ElfFile.relocatable {V K : Addr → Prop} {dest : ℕ → Addr} (helf : ElfFile mem file size)
    (hfile : ∀ i < size, K (file + BitVec.ofNat 32 i)) (hV : ∀ a, K a → ¬ V a)
    (hdest : ∀ i, PtLoad mem file i → ∀ a, InBlock (dest i) (pFilesz mem file i) a →
      ¬ K a ∧ ¬ V a)
    (hapart : ∀ i i', i ≠ i' → PtLoad mem file i → PtLoad mem file i' → ∀ a,
      InBlock (dest i) (pFilesz mem file i) a → ¬ InBlock (dest i') (pFilesz mem file i') a)
    (i n : ℕ) : Relocatable V K (segmentList mem file dest i n) where
  file := hV
  src := by
    intro s hs j hj
    obtain ⟨i', _, _, hload, rfl⟩ := mem_segmentList.mp hs
    have hseg := helf.segments i' hload
    have hlt : j < pFilesz mem file i' := hj
    have hin := hfile ((pOffset mem file i').toNat + j) (by omega)
    rwa [← add_ofNat_add, BitVec.ofNat_toNat, BitVec.setWidth_eq] at hin
  dest := by
    intro s hs
    obtain ⟨i', _, _, hload, rfl⟩ := mem_segmentList.mp hs
    exact hdest i' hload
  len := by
    intro s hs
    obtain ⟨i', _, _, hload, rfl⟩ := mem_segmentList.mp hs
    exact Nat.le_of_lt (BitVec.isLt _)
  apart := by
    unfold segmentList
    rw [List.pairwise_map]
    have hne : ((List.range' i n).filter (PtLoad mem file)).Pairwise (· ≠ ·) :=
      (List.nodup_range' (s := i) (n := n)).filter _
    refine hne.imp_of_mem fun hi hi' hdiff => ?_
    have hload := of_decide_eq_true (List.mem_filter.mp hi).2
    have hload' := of_decide_eq_true (List.mem_filter.mp hi').2
    exact hapart _ _ hdiff hload hload'

end

end SimpleOs
