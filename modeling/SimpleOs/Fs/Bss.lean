import SimpleOs.Fs.Load

/-!
# Zero-initialised data

A segment has `p_memsz` bytes in memory, of which the file holds `p_filesz`; the others are
to be zero. The loop of `do_execl` (mm/mm.c:310-317) copies the bytes of the file and does
not look at `p_memsz`.

* `loadSegments_bss_iff`: when a segment is as it should be.
* `bss_not_cleared`: one that is not.
-/

namespace SimpleOs

open ByteMem

section

variable (mem : Mem) (file : Addr) (t : ProcTable) (src : Pid)

/-- What a loader is to leave: the bytes of the file, zeros behind them, and nothing else
    changed. -/
structure SegmentsLoaded (mem' : Mem) : Prop where
  copied : ∀ i, PtLoad mem file i → ∀ j < pFilesz mem file i,
    mem' (segmentAddr mem file t src i + BitVec.ofNat 32 j) =
      mem (file + pOffset mem file i + BitVec.ofNat 32 j)
  zero : ∀ i, PtLoad mem file i → ∀ j, pFilesz mem file i ≤ j → j < pMemsz mem file i →
    mem' (segmentAddr mem file t src i + BitVec.ofNat 32 j) = 0
  frame : ∀ a, (∀ i, PtLoad mem file i →
    ¬ InBlock (segmentAddr mem file t src i) (pMemsz mem file i) a) → mem' a = mem a

/-- The segments in memory hold those of the file, and are apart from the file and from each
    other. -/
structure SeparateSegments (size : ℕ) : Prop where
  sizes : ∀ i, PtLoad mem file i → pFilesz mem file i ≤ pMemsz mem file i
  buffer : ∀ i, PtLoad mem file i → ∀ a,
    InBlock (segmentAddr mem file t src i) (pMemsz mem file i) a → ¬ InFile file size a
  apart : ∀ i i', i ≠ i' → PtLoad mem file i → PtLoad mem file i' → ∀ a,
    InBlock (segmentAddr mem file t src i) (pMemsz mem file i) a →
      ¬ InBlock (segmentAddr mem file t src i') (pMemsz mem file i') a

end

section

variable {mem mem' : Mem} {file : Addr} {t : ProcTable} {src : Pid} {size : ℕ}

/-- The part of a segment that the file holds. -/
theorem SeparateSegments.filePart (h : SeparateSegments mem file t src size) {i : ℕ}
    (hi : PtLoad mem file i) {a : Addr}
    (ha : InBlock (segmentAddr mem file t src i) (pFilesz mem file i) a) :
    InBlock (segmentAddr mem file t src i) (pMemsz mem file i) a :=
  lt_of_lt_of_le ha (h.sizes i hi)

theorem SeparateSegments.relocatable (h : SeparateSegments mem file t src size)
    (helf : ElfFile mem file size) (n : ℕ) :
    Relocatable (fun _ => False) (InFile file size)
      (segmentList mem file (segmentAddr mem file t src) 0 n) := by
  refine helf.relocatable (fun i hi => ⟨i, hi, rfl⟩) (fun _ _ => id) (fun i hi a ha => ?_)
    (fun i i' hne hi hi' a ha => ?_) 0 n
  · exact ⟨h.buffer i hi a (h.filePart hi ha), id⟩
  · intro ha'
    exact h.apart i i' hne hi hi' a (h.filePart hi ha) (h.filePart hi' ha')

/-- A byte of a segment that is not in the file lies in no part that is copied. -/
theorem SeparateSegments.behind_file (h : SeparateSegments mem file t src size) {i j : ℕ}
    (hi : PtLoad mem file i) (hle : pFilesz mem file i ≤ j) (hlt : j < pMemsz mem file i) {n : ℕ} :
    ∀ s ∈ segmentList mem file (segmentAddr mem file t src) 0 n,
      ¬ s.Covers (segmentAddr mem file t src i + BitVec.ofNat 32 j) := by
  have hmax : pMemsz mem file i ≤ 2 ^ 32 := Nat.le_of_lt (BitVec.isLt _)
  intro s hs hc
  obtain ⟨i', _, _, hi', rfl⟩ := mem_segmentList.mp hs
  by_cases heq : i' = i
  · rw [heq] at hc
    have hoff : (segmentAddr mem file t src i + BitVec.ofNat 32 j -
        segmentAddr mem file t src i).toNat < pFilesz mem file i := hc
    have hdiff : segmentAddr mem file t src i + BitVec.ofNat 32 j -
        segmentAddr mem file t src i = BitVec.ofNat 32 j := by bv_omega
    rw [hdiff, BitVec.toNat_ofNat, Nat.mod_eq_of_lt (by omega)] at hoff
    omega
  · exact h.apart i i' (fun h => heq h.symm) hi hi' _ (inBlock_add hlt hmax) (h.filePart hi' hc)

/-- Behind the copies, the memory is as a loader is to leave it if and only if the bytes that
    the file does not hold were zero before. -/
theorem segmentsLoaded_iff (helf : ElfFile mem file size)
    (h : SeparateSegments mem file t src size)
    (hr : CopyRun (fun _ => False)
      (segmentList mem file (segmentAddr mem file t src) 0 (ePhnum mem file)) mem mem') :
    SegmentsLoaded mem file t src mem' ↔
      ∀ i, PtLoad mem file i → ∀ j, pFilesz mem file i ≤ j → j < pMemsz mem file i →
        mem (segmentAddr mem file t src i + BitVec.ofNat 32 j) = 0 := by
  have hkept : ∀ i, PtLoad mem file i → ∀ j, pFilesz mem file i ≤ j → j < pMemsz mem file i →
      mem' (segmentAddr mem file t src i + BitVec.ofNat 32 j) =
        mem (segmentAddr mem file t src i + BitVec.ofNat 32 j) :=
    fun i hi j hle hlt => hr.kept id (h.behind_file hi hle hlt)
  constructor
  · intro hloaded i hi j hle hlt
    rw [← hkept i hi j hle hlt]
    exact hloaded.zero i hi j hle hlt
  · intro hzero
    refine ⟨fun i hi j hj => ?_, fun i hi j hle hlt => ?_, fun a ha => ?_⟩
    · have hlt := hi.1
      have hs : Segment.mk (segmentAddr mem file t src i) (file + pOffset mem file i)
          (pFilesz mem file i) ∈ segmentList mem file (segmentAddr mem file t src) 0
            (ePhnum mem file) :=
        mem_segmentList.mpr ⟨i, Nat.zero_le i, by omega, hi, rfl⟩
      exact hr.copied (h.relocatable helf (ePhnum mem file)) _ hs j hj
    · rw [hkept i hi j hle hlt]
      exact hzero i hi j hle hlt
    · refine hr.kept id fun s hs hc => ?_
      obtain ⟨i, _, _, hi, rfl⟩ := mem_segmentList.mp hs
      exact ha i hi (h.filePart hi hc)

end

/-- The loop of `do_execl` returns, behind a copy of every segment. -/
theorem loadSegments_copies {k : Machine} {src : Pid} {buf : Addr} {size : ℕ}
    (hflat : NativeFlat k.procTable) (helf : ElfFile k.mem buf size)
    (hsep : SeparateSegments k.mem buf k.procTable src size) :
    ∃ mem', loadSegments (proc2pid src) buf 65536 0 (buf + ePhoff k.mem buf) k =
        .ok { k with mem := mem' } ∧
      CopyRun (fun _ => False)
        (segmentList k.mem buf (segmentAddr k.mem buf k.procTable src) 0 (ePhnum k.mem buf))
        k.mem mem' := by
  have hnum : ePhnum k.mem buf < 65536 := BitVec.isLt _
  have hfirst : phdr k.mem buf 0 = buf + ePhoff k.mem buf := BitVec.add_zero _
  rw [← hfirst]
  exact loadSegments_run (K := InFile buf size) helf (fun i hi => ⟨i, hi, rfl⟩)
    (fun i hi a ha => hsep.buffer i hi a (hsep.filePart hi ha)) hflat
    (ePhnum k.mem buf) 0 65536 k (Nat.zero_add _) hnum rfl fun _ _ => rfl

/-- The loop of `do_execl` returns, and loads the segments as it should if and only if the
    bytes between `p_filesz` and `p_memsz` are zero already. -/
theorem loadSegments_bss_iff {k : Machine} {src : Pid} {buf : Addr} {size : ℕ}
    (hflat : NativeFlat k.procTable) (helf : ElfFile k.mem buf size)
    (hsep : SeparateSegments k.mem buf k.procTable src size) :
    ∃ mem', loadSegments (proc2pid src) buf 65536 0 (buf + ePhoff k.mem buf) k =
        .ok { k with mem := mem' } ∧
      (SegmentsLoaded k.mem buf k.procTable src mem' ↔
        ∀ i, PtLoad k.mem buf i → ∀ j, pFilesz k.mem buf i ≤ j → j < pMemsz k.mem buf i →
          k.mem (segmentAddr k.mem buf k.procTable src i + BitVec.ofNat 32 j) = 0) := by
  obtain ⟨mem', hrun, hcopies⟩ := loadSegments_copies hflat helf hsep
  exact ⟨mem', hrun, segmentsLoaded_iff helf hsep hcopies⟩

/-! ### A program with zero-initialised data -/

/-- An ELF file with one segment at `0x102000`, of four bytes in the file and `memsz` bytes
    in memory. -/
def bssFile (memsz : ℕ) : List Byte :=
  [0x7f, 0x45, 0x4c, 0x46, 1, 1, 1] ++ List.replicate 9 0 ++ [2, 0, 3, 0] ++ bytesOf 1 ++
    bytesOf 0x101000 ++ bytesOf 52 ++ bytesOf 0 ++ bytesOf 0 ++ [52, 0, 32, 0, 1, 0] ++
    List.replicate 6 0 ++
    bytesOf 1 ++ bytesOf 84 ++ bytesOf 0x102000 ++ bytesOf 0x102000 ++ bytesOf 4 ++
    bytesOf memsz ++ bytesOf 6 ++ bytesOf 0x1000 ++ [0x90, 0x90, 0xeb, 0xfe]

/-- The booted machine with the file in the first block, and `rest` everywhere else. -/
def bssMachine (memsz : ℕ) (rest : Byte) : Machine :=
  { bootMachine sampleImage with
    mem := fun a => (bssFile memsz).getD (a - 0x1000000).toNat rest }

theorem bssMachine_load {rest : Byte} (hnum : ePhnum (bssMachine 8 rest).mem 0x1000000 = 1)
    {i : ℕ} (hi : PtLoad (bssMachine 8 rest).mem 0x1000000 i) : i = 0 := by
  have hlt := hi.1
  omega

/-- Its only segment is apart from the file. -/
theorem bssMachine_elf (rest : Byte)
    (hnum : ePhnum (bssMachine 8 rest).mem 0x1000000 = 1)
    (hoff : (ePhoff (bssMachine 8 rest).mem 0x1000000).toNat = 52)
    (hseg : (pOffset (bssMachine 8 rest).mem 0x1000000 0).toNat = 84)
    (hfilesz : pFilesz (bssMachine 8 rest).mem 0x1000000 0 = 4)
    (hmemsz : pMemsz (bssMachine 8 rest).mem 0x1000000 0 = 8)
    (haddr : segmentAddr (bssMachine 8 rest).mem 0x1000000 (bssMachine 8 rest).procTable INIT 0 =
      0x102000) :
    ElfFile (bssMachine 8 rest).mem 0x1000000 88 ∧
      SeparateSegments (bssMachine 8 rest).mem 0x1000000 (bssMachine 8 rest).procTable INIT 88 := by
  refine ⟨⟨by omega, by omega, fun i hi => ?_⟩, fun i hi => ?_, fun i hi a ha hin => ?_,
    fun i i' hne hi hi' => ?_⟩
  · obtain rfl := bssMachine_load hnum hi
    omega
  · obtain rfl := bssMachine_load hnum hi
    omega
  · obtain rfl := bssMachine_load hnum hi
    obtain ⟨j, hj, rfl⟩ := hin
    rw [haddr, hmemsz] at ha
    unfold InBlock at ha
    bv_omega
  · exact absurd ((bssMachine_load hnum hi).trans (bssMachine_load hnum hi').symm) hne

theorem bssMachine_flat (rest : Byte) : NativeFlat (bssMachine 8 rest).procTable :=
  (initProc_quiescent sampleImage).flat

theorem bssMachine_zeros :
    ElfFile (bssMachine 8 0).mem 0x1000000 88 ∧
      SeparateSegments (bssMachine 8 0).mem 0x1000000 (bssMachine 8 0).procTable INIT 88 :=
  bssMachine_elf 0 (by decide) (by decide) (by decide) (by decide) (by decide) (by decide)

theorem bssMachine_ones :
    ElfFile (bssMachine 8 1).mem 0x1000000 88 ∧
      SeparateSegments (bssMachine 8 1).mem 0x1000000 (bssMachine 8 1).procTable INIT 88 :=
  bssMachine_elf 1 (by decide) (by decide) (by decide) (by decide) (by decide) (by decide)

/-- In a memory of zeros the program is loaded as it should be. -/
theorem loadSegments_bss_iff_zeros :
    ∃ mem', loadSegments (proc2pid INIT) 0x1000000 65536 0
        (0x1000000 + ePhoff (bssMachine 8 0).mem 0x1000000) (bssMachine 8 0) =
        .ok { bssMachine 8 0 with mem := mem' } ∧
      SegmentsLoaded (bssMachine 8 0).mem 0x1000000 (bssMachine 8 0).procTable INIT mem' := by
  obtain ⟨mem', hrun, hiff⟩ :=
    loadSegments_bss_iff (bssMachine_flat 0) bssMachine_zeros.1 bssMachine_zeros.2
  have hzeros : ∀ j < 8, (bssMachine 8 0).mem
      (segmentAddr (bssMachine 8 0).mem 0x1000000 (bssMachine 8 0).procTable INIT 0 +
        BitVec.ofNat 32 j) = 0 := by decide
  refine ⟨mem', hrun, hiff.mpr fun i hi j _ hlt => ?_⟩
  obtain rfl := bssMachine_load (by decide) hi
  exact hzeros j hlt

/-- With ones behind the file the program is not: four of its bytes are 1. -/
theorem bss_not_cleared :
    ElfFile (bssMachine 8 1).mem 0x1000000 88 ∧
      SeparateSegments (bssMachine 8 1).mem 0x1000000 (bssMachine 8 1).procTable INIT 88 ∧
      ∃ mem', loadSegments (proc2pid INIT) 0x1000000 65536 0
          (0x1000000 + ePhoff (bssMachine 8 1).mem 0x1000000) (bssMachine 8 1) =
          .ok { bssMachine 8 1 with mem := mem' } ∧
        ¬ SegmentsLoaded (bssMachine 8 1).mem 0x1000000 (bssMachine 8 1).procTable INIT mem' := by
  obtain ⟨helf, hsep⟩ := bssMachine_ones
  obtain ⟨mem', hrun, hcopies⟩ := loadSegments_copies (bssMachine_flat 1) helf hsep
  have hload : PtLoad (bssMachine 8 1).mem 0x1000000 0 := by decide
  have hone : (bssMachine 8 1).mem
      (segmentAddr (bssMachine 8 1).mem 0x1000000 (bssMachine 8 1).procTable INIT 0 +
        BitVec.ofNat 32 4) = 1 := by decide
  refine ⟨helf, hsep, mem', hrun, fun hloaded => ?_⟩
  have hzero := (segmentsLoaded_iff helf hsep hcopies).mp hloaded 0 hload 4 (by decide) (by decide)
  rw [hone] at hzero
  exact absurd hzero (by decide)

end SimpleOs
