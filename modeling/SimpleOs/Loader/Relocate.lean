import SimpleOs.Fs.Elf
import SimpleOs.Io.Screen

/-!
# Relocation of the kernel

Model of `copy_elf_code` and `s32_memcpy` (kernel_loader/protected_code.c:34-122): the loader
has put the ELF file of the kernel at `LOAD_KERNEL_ADDR`, copies its segments to where they
are linked and jumps to the entry point. It prints what it does, every number on a line of
its own, from line 11 on.

The memory is that of the machine, without the stack and the variables of the loader.

* `copySegments_spec`: the loop.
* `copyElfCode_iff`: which kernels are relocated with all output in the video memory.
* `too_many_headers`: one that is not.
-/

namespace SimpleOs

open ByteMem

/-- `LOAD_KERNEL_ADDR` (include/kl_global.h:16). -/
abbrev LOAD_KERNEL_ADDR : Addr := 0x300000

/-- `s32_memcpy(dest, src, n)` (kernel_loader/protected_code.c:34-38). -/
def s32Memcpy (mem : Mem) (dest src : Addr) (n : BitVec 32) : Mem :=
  copyLoop n.toNat mem dest src

/-- The memory while the loader runs, and what it has printed. -/
structure Relocation where
  mem : Mem
  output : Output

def Relocation.put (s : Relocation) (out : Output) : Relocation :=
  ⟨out.write s.mem, s.output ++ out⟩

/-- `clear_line(line); s32_print_int(field, (u8*)(0xb8000+160*line), 16);`, for the word at
    `field`. -/
def Relocation.printField (s : Relocation) (line : ℕ) (field : Addr) : Relocation :=
  let s := s.put (clearLine (BitVec.ofNat 8 line))
  s.put (s32PrintInt (readWord s.mem field) (lineAddr line) 16)

/-- A number below `e_phnum` is below 65536. -/
theorem headersLeft_lt {i : ℕ} {w : BitVec 16} (h : i < w.toNat) :
    65536 - (i + 1) < 65536 - i := by
  have hmax : w.toNat < 65536 := w.isLt
  omega

/-- The loop of `copy_elf_code` (kernel_loader/protected_code.c:88-112): the last line, and
    what is left. `e_phnum` has 16 bits, so the loop ends. -/
def copySegments (i line : ℕ) (header : Addr) (s : Relocation) : ℕ × Relocation :=
  if i < (readHalf s.mem (LOAD_KERNEL_ADDR + 44)).toNat then
    let s₁ := s.printField (line + 1) (LOAD_KERNEL_ADDR + 24)
    if readWord s₁.mem header = 1 then
      let s₂ := s₁.printField (line + 2) (header + 8)
      let s₃ := s₂.printField (line + 3) (header + 4)
      let mem := s32Memcpy s₃.mem (readWord s₃.mem (header + 8))
        (LOAD_KERNEL_ADDR + readWord s₃.mem (header + 4)) (readWord s₃.mem (header + 16))
      copySegments (i + 1) (line + 3) (header + 32) { s₃ with mem := mem }
    else copySegments (i + 1) (line + 1) (header + 32) s₁
  else (line, s)
termination_by 65536 - i
decreasing_by all_goals exact headersLeft_lt ‹_›

/-- `copy_elf_code` (kernel_loader/protected_code.c:46-122): what is left, and where it jumps
    to. -/
def copyElfCode (mem : Mem) : Relocation × Addr :=
  let s : Relocation := ⟨mem, []⟩
  let s := s.put [(0xb8000, charByte 'P'), (0xb8002, charByte 'M'), (0xb8003, 9)]
  let header := LOAD_KERNEL_ADDR + readWord s.mem (LOAD_KERNEL_ADDR + 28)
  let entry := readWord s.mem (LOAD_KERNEL_ADDR + 24)
  let s := s.printField 11 (LOAD_KERNEL_ADDR + 24)
  let (line, s) := copySegments 0 11 header s
  (s.printField (line + 1) (LOAD_KERNEL_ADDR + 24), entry)

/-! ## Output -/

/-- What has been printed is in the video memory. -/
def Relocation.OnScreen (s : Relocation) : Prop := ∀ w ∈ s.output, InTextMemory w.1

section

variable {s : Relocation} {line : ℕ} {field : Addr}

theorem Relocation.put_onScreen {out : Output} :
    (s.put out).OnScreen ↔ s.OnScreen ∧ ∀ w ∈ out, InTextMemory w.1 := by
  unfold Relocation.OnScreen Relocation.put
  exact List.forall_mem_append

theorem Relocation.put_same {out : Output} (h : ∀ w ∈ out, InTextMemory w.1) :
    SameOutside InTextMemory s.mem (s.put out).mem := by
  intro a ha
  apply Output.write_out
  rintro w hw rfl
  exact ha (h w hw)

/-- Below line 204 a number is in the video memory. -/
theorem printInt_inText (hline : line ≤ 203) (i : BitVec 32) :
    ∀ w ∈ s32PrintInt i (lineAddr line) 16, InTextMemory w.1 := by
  rw [lineAddr_eq]
  exact s32PrintInt_inText (by omega)

theorem clear_inText (hline : line ≤ 203) :
    ∀ w ∈ clearLine (BitVec.ofNat 8 line), InTextMemory w.1 := by
  apply clearLine_inText
  rw [BitVec.toNat_ofNat]
  omega

theorem Relocation.printField_same (hline : line ≤ 203) (s : Relocation) (field : Addr) :
    SameOutside InTextMemory s.mem (s.printField line field).mem :=
  (put_same (clear_inText hline)).trans (put_same (printInt_inText hline _))

/-- The first line that is not in the video memory as a whole is 204. -/
theorem Relocation.printField_onScreen (hline : line ≤ 204) :
    (s.printField line field).OnScreen ↔ s.OnScreen ∧ line ≤ 203 := by
  unfold Relocation.printField
  dsimp only
  rw [put_onScreen, put_onScreen, and_assoc]
  constructor
  · rintro ⟨hs, hclear, _⟩
    refine ⟨hs, ?_⟩
    by_contra hlong
    have hlast : line = 204 := by omega
    obtain ⟨w, hw, heq⟩ := clearLine_stray
    rw [hlast] at hclear
    have hin := hclear w hw
    rw [heq] at hin
    exact absurd hin (by decide)
  · rintro ⟨hs, hle⟩
    exact ⟨hs, clear_inText hle, printInt_inText hle _⟩

theorem Relocation.onScreen_of_printField (h : (s.printField line field).OnScreen) :
    s.OnScreen := (put_onScreen.mp (put_onScreen.mp h).1).1

/-- What has been printed stays printed. -/
theorem copySegments_onScreen (i line : ℕ) (header : Addr) (s : Relocation)
    (h : (copySegments i line header s).2.OnScreen) : s.OnScreen := by
  induction i, line, header, s using copySegments.induct with
  | case1 i line header s hlt s₁ hload s₂ s₃ mem ih =>
    rw [copySegments, if_pos hlt, if_pos hload] at h
    exact Relocation.onScreen_of_printField
      (Relocation.onScreen_of_printField (Relocation.onScreen_of_printField (ih h)))
  | case2 i line header s hlt s₁ hload ih =>
    rw [copySegments, if_pos hlt, if_neg hload] at h
    exact Relocation.onScreen_of_printField (ih h)
  | case3 i line header s hlt =>
    rw [copySegments, if_neg hlt] at h
    exact h

end

/-! ## The loop -/

/-- The number of PT_LOAD headers among those with the numbers `i..i+n-1`. -/
def loadCount (mem : Mem) (i n : ℕ) : ℕ :=
  (List.range' i n).countP (PtLoad mem LOAD_KERNEL_ADDR)

section

variable {m₀ mem : Mem} {size i n : ℕ}

theorem loadCount_load (hi : PtLoad m₀ LOAD_KERNEL_ADDR i) :
    loadCount m₀ i (n + 1) = loadCount m₀ (i + 1) n + 1 := by
  unfold loadCount
  rw [List.range'_succ, List.countP_cons_of_pos (by simpa using hi)]

theorem loadCount_skip (hi : ¬ PtLoad m₀ LOAD_KERNEL_ADDR i) :
    loadCount m₀ i (n + 1) = loadCount m₀ (i + 1) n := by
  unfold loadCount
  rw [List.range'_succ, List.countP_cons_of_neg (by simpa using hi)]

/-- What the loader needs of a kernel: the file is one, in the address space, and the
    destinations are apart from it, from the video memory and from each other. -/
structure Relocates (mem : Mem) (size : ℕ) : Prop where
  elf : ElfFile mem LOAD_KERNEL_ADDR size
  size_le : LOAD_KERNEL_ADDR.toNat + size ≤ 2 ^ 32
  buffer : ∀ i, PtLoad mem LOAD_KERNEL_ADDR i → ∀ a,
    InBlock (pVaddr mem LOAD_KERNEL_ADDR i) (pFilesz mem LOAD_KERNEL_ADDR i) a →
      ¬ InFile LOAD_KERNEL_ADDR size a
  video : ∀ i, PtLoad mem LOAD_KERNEL_ADDR i → ∀ a,
    InBlock (pVaddr mem LOAD_KERNEL_ADDR i) (pFilesz mem LOAD_KERNEL_ADDR i) a →
      ¬ InTextMemory a
  apart : ∀ i i', i ≠ i' → PtLoad mem LOAD_KERNEL_ADDR i → PtLoad mem LOAD_KERNEL_ADDR i' → ∀ a,
    InBlock (pVaddr mem LOAD_KERNEL_ADDR i) (pFilesz mem LOAD_KERNEL_ADDR i) a →
      ¬ InBlock (pVaddr mem LOAD_KERNEL_ADDR i') (pFilesz mem LOAD_KERNEL_ADDR i') a

/-- The file is above the video memory. -/
theorem Relocates.file (h : Relocates mem size) {a : Addr} (ha : InFile LOAD_KERNEL_ADDR size a) :
    ¬ InTextMemory a := by
  have hsize := h.size_le
  have hbase : (0x300000 : Addr).toNat = 0x300000 := rfl
  obtain ⟨j, hj, rfl⟩ := ha
  unfold InTextMemory
  unfold LOAD_KERNEL_ADDR at *
  rw [BitVec.toNat_add, BitVec.toNat_ofNat, hbase]
  omega

theorem Relocates.relocatable (h : Relocates mem size) (i n : ℕ) :
    Relocatable InTextMemory (InFile LOAD_KERNEL_ADDR size)
      (segmentList mem LOAD_KERNEL_ADDR (pVaddr mem LOAD_KERNEL_ADDR) i n) :=
  h.elf.relocatable (fun j hj => ⟨j, hj, rfl⟩) (fun _ => h.file)
    (fun i hi a ha => ⟨h.buffer i hi a ha, h.video i hi a ha⟩) h.apart i n

/-- The memory still holds the file. -/
def HoldsFile (m₀ : Mem) (size : ℕ) (mem : Mem) : Prop :=
  ∀ a, InFile LOAD_KERNEL_ADDR size a → mem a = m₀ a

theorem HoldsFile.same (hm : HoldsFile m₀ size mem) (h : Relocates m₀ size) :
    SameElf m₀ mem LOAD_KERNEL_ADDR LOAD_KERNEL_ADDR :=
  h.elf.same fun j hj => hm _ ⟨j, hj, rfl⟩

theorem HoldsFile.after {mem' : Mem} (hm : HoldsFile m₀ size mem) (h : Relocates m₀ size)
    (hsame : SameOutside InTextMemory mem mem') : HoldsFile m₀ size mem' :=
  fun a ha => (hsame a (h.file ha)).trans (hm a ha)

/-- The round for a header that is not a PT_LOAD. -/
theorem copySegments_skip {line : ℕ} {s : Relocation} (h : Relocates m₀ size)
    (hm : HoldsFile m₀ size s.mem) (hline : line + 1 ≤ 203)
    (hi : i < ePhnum m₀ LOAD_KERNEL_ADDR) (hload : ¬ PtLoad m₀ LOAD_KERNEL_ADDR i) :
    copySegments i line (phdr m₀ LOAD_KERNEL_ADDR i) s =
      copySegments (i + 1) (line + 1) (phdr m₀ LOAD_KERNEL_ADDR (i + 1))
        (s.printField (line + 1) (LOAD_KERNEL_ADDR + 24)) := by
  have hnum : (readHalf s.mem (LOAD_KERNEL_ADDR + 44)).toNat = ePhnum m₀ LOAD_KERNEL_ADDR :=
    (hm.same h).phnum
  have hm₁ := hm.after h (Relocation.printField_same hline s (LOAD_KERNEL_ADDR + 24))
  have htype := (hm₁.same h).type_in_place hi
  rw [copySegments, hnum, if_pos hi]
  dsimp only
  rw [htype, if_neg fun hone => hload ⟨hi, hone⟩, phdr_succ]

/-- The round for a PT_LOAD: what is printed, and the copy. -/
theorem copySegments_load {line : ℕ} {s : Relocation} (h : Relocates m₀ size)
    (hm : HoldsFile m₀ size s.mem) (hs : s.OnScreen) (hline : line + 3 ≤ 203)
    (hload : PtLoad m₀ LOAD_KERNEL_ADDR i) :
    ∃ s' : Relocation, copySegments i line (phdr m₀ LOAD_KERNEL_ADDR i) s =
        copySegments (i + 1) (line + 3) (phdr m₀ LOAD_KERNEL_ADDR (i + 1)) s' ∧
      s'.OnScreen ∧ HoldsFile m₀ size s'.mem ∧
      ∃ m₁, SameOutside InTextMemory s.mem m₁ ∧
        s'.mem = copy m₁ (pVaddr m₀ LOAD_KERNEL_ADDR i)
          (LOAD_KERNEL_ADDR + pOffset m₀ LOAD_KERNEL_ADDR i) (pFilesz m₀ LOAD_KERNEL_ADDR i) := by
  have hi := hload.1
  have hnum : (readHalf s.mem (LOAD_KERNEL_ADDR + 44)).toNat = ePhnum m₀ LOAD_KERNEL_ADDR :=
    (hm.same h).phnum
  set s₁ := s.printField (line + 1) (LOAD_KERNEL_ADDR + 24) with hs₁
  set s₂ := s₁.printField (line + 2) (phdr m₀ LOAD_KERNEL_ADDR i + 8) with hs₂
  set s₃ := s₂.printField (line + 3) (phdr m₀ LOAD_KERNEL_ADDR i + 4) with hs₃
  have hsame₁ : SameOutside InTextMemory s.mem s₁.mem := Relocation.printField_same (by omega) _ _
  have hsame₂ : SameOutside InTextMemory s₁.mem s₂.mem := Relocation.printField_same (by omega) _ _
  have hsame₃ : SameOutside InTextMemory s₂.mem s₃.mem := Relocation.printField_same (by omega) _ _
  have hsame := (hsame₁.trans hsame₂).trans hsame₃
  have hm₁ := hm.after h hsame₁
  have hm₃ := hm.after h hsame
  have htype := (hm₁.same h).type_in_place hi
  obtain ⟨hoffset, hvaddr, hfilesz⟩ := (hm₃.same h).fields_in_place hi
  have hcopy : s32Memcpy s₃.mem (pVaddr m₀ LOAD_KERNEL_ADDR i)
      (LOAD_KERNEL_ADDR + pOffset m₀ LOAD_KERNEL_ADDR i)
      (readWord s₃.mem (phdr m₀ LOAD_KERNEL_ADDR i + 16)) =
      copy s₃.mem (pVaddr m₀ LOAD_KERNEL_ADDR i)
        (LOAD_KERNEL_ADDR + pOffset m₀ LOAD_KERNEL_ADDR i) (pFilesz m₀ LOAD_KERNEL_ADDR i) := by
    have hlen : pFilesz m₀ LOAD_KERNEL_ADDR i ≤ 2 ^ 32 := Nat.le_of_lt (BitVec.isLt _)
    rw [s32Memcpy, hfilesz, copyLoop_eq _ hlen]
  refine ⟨⟨copy s₃.mem (pVaddr m₀ LOAD_KERNEL_ADDR i)
    (LOAD_KERNEL_ADDR + pOffset m₀ LOAD_KERNEL_ADDR i) (pFilesz m₀ LOAD_KERNEL_ADDR i),
    s₃.output⟩, ?_, ?_, ?_, s₃.mem, hsame, rfl⟩
  · rw [copySegments, hnum, if_pos hi]
    dsimp only
    rw [← hs₁, htype, if_pos hload.2, ← hs₂, ← hs₃, hvaddr, hoffset, hcopy, phdr_succ]
  · have hscreen₁ : s₁.OnScreen :=
      (Relocation.printField_onScreen (by omega)).mpr ⟨hs, by omega⟩
    have hscreen₂ : s₂.OnScreen :=
      (Relocation.printField_onScreen (by omega)).mpr ⟨hscreen₁, by omega⟩
    exact (Relocation.printField_onScreen (by omega)).mpr ⟨hscreen₂, by omega⟩
  · intro a ha
    exact (copy_out fun hc => h.buffer i hload a hc ha).trans (hm₃ a ha)

/-- A round that has not enough lines left leaves the screen. -/
theorem copySegments_long {line : ℕ} {s : Relocation} (h : Relocates m₀ size)
    (hm : HoldsFile m₀ size s.mem) (hi : i < ePhnum m₀ LOAD_KERNEL_ADDR) (hline : line ≤ 203)
    (hfinal : (copySegments i line (phdr m₀ LOAD_KERNEL_ADDR i) s).2.OnScreen) :
    line + 1 ≤ 203 ∧ (PtLoad m₀ LOAD_KERNEL_ADDR i → line + 3 ≤ 203) := by
  have hnum : (readHalf s.mem (LOAD_KERNEL_ADDR + 44)).toNat = ePhnum m₀ LOAD_KERNEL_ADDR :=
    (hm.same h).phnum
  rw [copySegments, hnum, if_pos hi] at hfinal
  dsimp only at hfinal
  set s₁ := s.printField (line + 1) (LOAD_KERNEL_ADDR + 24) with hs₁
  set s₂ := s₁.printField (line + 2) (phdr m₀ LOAD_KERNEL_ADDR i + 8) with hs₂
  set s₃ := s₂.printField (line + 3) (phdr m₀ LOAD_KERNEL_ADDR i + 4) with hs₃
  have hscreen₁ : s₁.OnScreen := by
    by_cases hone : readWord s₁.mem (phdr m₀ LOAD_KERNEL_ADDR i) = 1
    · rw [if_pos hone] at hfinal
      have hcopied := copySegments_onScreen _ _ _ _ hfinal
      have hscreen₃ : s₃.OnScreen := hcopied
      exact Relocation.onScreen_of_printField (Relocation.onScreen_of_printField hscreen₃)
    · rw [if_neg hone] at hfinal
      exact copySegments_onScreen _ _ _ _ hfinal
  have hfirst : line + 1 ≤ 203 := ((Relocation.printField_onScreen (by omega)).mp hscreen₁).2
  refine ⟨hfirst, fun hload => ?_⟩
  have hm₁ := hm.after h (Relocation.printField_same hfirst s (LOAD_KERNEL_ADDR + 24))
  have htype := (hm₁.same h).type_in_place hi
  rw [← hs₁] at htype
  rw [htype, if_pos hload.2] at hfinal
  have hcopied := copySegments_onScreen _ _ _ _ hfinal
  have hscreen₃ : s₃.OnScreen := hcopied
  have hscreen₂ : s₂.OnScreen := Relocation.onScreen_of_printField hscreen₃
  have hsecond : line + 2 ≤ 203 := ((Relocation.printField_onScreen (by omega)).mp hscreen₂).2
  exact ((Relocation.printField_onScreen (by omega)).mp hscreen₃).2

/-- The loop prints a line for every header and two more for every PT_LOAD. When they are
    in the video memory it copies the segments. -/
theorem copySegments_spec (h : Relocates m₀ size) :
    ∀ (n i line : ℕ) (s : Relocation), i + n = ePhnum m₀ LOAD_KERNEL_ADDR → line ≤ 203 →
      s.OnScreen → HoldsFile m₀ size s.mem →
      ((copySegments i line (phdr m₀ LOAD_KERNEL_ADDR i) s).2.OnScreen →
        line + n + 2 * loadCount m₀ i n ≤ 203) ∧
      (line + n + 2 * loadCount m₀ i n ≤ 203 →
        (copySegments i line (phdr m₀ LOAD_KERNEL_ADDR i) s).1 =
            line + n + 2 * loadCount m₀ i n ∧
          (copySegments i line (phdr m₀ LOAD_KERNEL_ADDR i) s).2.OnScreen ∧
          CopyRun InTextMemory
            (segmentList m₀ LOAD_KERNEL_ADDR (pVaddr m₀ LOAD_KERNEL_ADDR) i n) s.mem
            (copySegments i line (phdr m₀ LOAD_KERNEL_ADDR i) s).2.mem) := by
  intro n
  induction n with
  | zero =>
    intro i line s hin hline hs hm
    have hnum : (readHalf s.mem (LOAD_KERNEL_ADDR + 44)).toNat = i := (hm.same h).phnum.trans hin.symm
    have hcount : loadCount m₀ i 0 = 0 := rfl
    rw [copySegments, hnum, if_neg (Nat.lt_irrefl i), hcount]
    exact ⟨fun _ => hline, fun _ => ⟨rfl, hs, .done (.refl _ _)⟩⟩
  | succ n ih =>
    intro i line s hin hline hs hm
    have hi : i < ePhnum m₀ LOAD_KERNEL_ADDR := by omega
    have hroom : (copySegments i line (phdr m₀ LOAD_KERNEL_ADDR i) s).2.OnScreen →
        line + 1 ≤ 203 ∧ (PtLoad m₀ LOAD_KERNEL_ADDR i → line + 3 ≤ 203) :=
      copySegments_long h hm hi hline
    by_cases hload : PtLoad m₀ LOAD_KERNEL_ADDR i
    · rw [loadCount_load hload, segmentList_load hload]
      by_cases hlines : line + 3 ≤ 203
      · obtain ⟨s', hrun, hs', hm', m₁, hsame, hmem⟩ := copySegments_load h hm hs hlines hload
        obtain ⟨hlong, hshort⟩ := ih (i + 1) (line + 3) s' (by omega) hlines hs' hm'
        rw [hrun]
        refine ⟨fun hfinal => ?_, fun hle => ?_⟩
        · have hrest := hlong hfinal
          omega
        · obtain ⟨hlast, hscreen, hcopies⟩ := hshort (by omega)
          rw [hmem] at hcopies
          exact ⟨by omega, hscreen, .copy hsame hcopies⟩
      · refine ⟨fun hfinal => absurd ((hroom hfinal).2 hload) hlines, fun hle => ?_⟩
        omega
    · rw [loadCount_skip hload, segmentList_skip hload]
      by_cases hlines : line + 1 ≤ 203
      · have hs' : (s.printField (line + 1) (LOAD_KERNEL_ADDR + 24)).OnScreen :=
          (Relocation.printField_onScreen (by omega)).mpr ⟨hs, hlines⟩
        have hsame := Relocation.printField_same hlines s (LOAD_KERNEL_ADDR + 24)
        obtain ⟨hlong, hshort⟩ := ih (i + 1) (line + 1) _ (by omega) hlines hs' (hm.after h hsame)
        rw [copySegments_skip h hm hlines hi hload]
        refine ⟨fun hfinal => ?_, fun hle => ?_⟩
        · have hrest := hlong hfinal
          omega
        · obtain ⟨hlast, hscreen, hcopies⟩ := hshort (by omega)
          exact ⟨by omega, hscreen, hcopies.after hsame⟩
      · refine ⟨fun hfinal => absurd (hroom hfinal).1 hlines, fun hle => ?_⟩
        omega

/-! ## The whole loader -/

/-- The kernel is where it is linked, nothing else has changed but for the output in the
    video memory, and the loader jumps to the entry point that the file had. -/
structure Relocated (mem : Mem) (run : Relocation × Addr) : Prop where
  copied : ∀ i, PtLoad mem LOAD_KERNEL_ADDR i → ∀ j < pFilesz mem LOAD_KERNEL_ADDR i,
    run.1.mem (pVaddr mem LOAD_KERNEL_ADDR i + BitVec.ofNat 32 j) =
      mem (LOAD_KERNEL_ADDR + pOffset mem LOAD_KERNEL_ADDR i + BitVec.ofNat 32 j)
  frame : ∀ a, ¬ InTextMemory a → (∀ i, PtLoad mem LOAD_KERNEL_ADDR i →
    ¬ InBlock (pVaddr mem LOAD_KERNEL_ADDR i) (pFilesz mem LOAD_KERNEL_ADDR i) a) →
    run.1.mem a = mem a
  output : run.1.OnScreen
  entry : run.2 = eEntry mem LOAD_KERNEL_ADDR

/-- What stands before the loop. -/
theorem copyElfCode_start (h : Relocates mem size) :
    ∃ s : Relocation, s.OnScreen ∧ SameOutside InTextMemory mem s.mem ∧
      copyElfCode mem =
        ((copySegments 0 11 (phdr mem LOAD_KERNEL_ADDR 0) s).2.printField
          ((copySegments 0 11 (phdr mem LOAD_KERNEL_ADDR 0) s).1 + 1) (LOAD_KERNEL_ADDR + 24),
          eEntry mem LOAD_KERNEL_ADDR) := by
  set marks : Output := [(0xb8000, charByte 'P'), (0xb8002, charByte 'M'), (0xb8003, 9)]
    with hmarks
  have hin : ∀ w ∈ marks, InTextMemory w.1 := by
    intro w hw
    rw [hmarks, List.mem_cons, List.mem_pair] at hw
    rcases hw with rfl | rfl | rfl
    · decide
    · decide
    · decide
  set s₀ : Relocation := Relocation.put ⟨mem, []⟩ marks with hs₀
  have hscreen₀ : s₀.OnScreen := Relocation.put_onScreen.mpr ⟨fun w hw => (by cases hw), hin⟩
  have hsame₀ : SameOutside InTextMemory mem s₀.mem := Relocation.put_same hin
  have hholds : HoldsFile mem size s₀.mem := fun a ha => hsame₀ a (h.file ha)
  have hphoff : readWord s₀.mem (LOAD_KERNEL_ADDR + 28) = ePhoff mem LOAD_KERNEL_ADDR :=
    (hholds.same h).phoff
  have hentry : readWord s₀.mem (LOAD_KERNEL_ADDR + 24) = eEntry mem LOAD_KERNEL_ADDR :=
    (hholds.same h).entry
  have hfirst : LOAD_KERNEL_ADDR + ePhoff mem LOAD_KERNEL_ADDR = phdr mem LOAD_KERNEL_ADDR 0 :=
    (BitVec.add_zero _).symm
  refine ⟨s₀.printField 11 (LOAD_KERNEL_ADDR + 24),
    (Relocation.printField_onScreen (by omega)).mpr ⟨hscreen₀, by omega⟩,
    hsame₀.trans (Relocation.printField_same (by omega) _ _), ?_⟩
  rw [copyElfCode]
  dsimp only
  rw [hphoff, hentry, hfirst]

/-- The last line that the loader prints: 12, and one for every header and two for every
    PT_LOAD. -/
def lastLine (mem : Mem) : ℕ :=
  12 + ePhnum mem LOAD_KERNEL_ADDR + 2 * loadCount mem 0 (ePhnum mem LOAD_KERNEL_ADDR)

/-- A loader that stays in the video memory has printed few lines. -/
theorem Relocated.lastLine_le (h : Relocates mem size) (hrel : Relocated mem (copyElfCode mem)) :
    lastLine mem ≤ 203 := by
  obtain ⟨s, hs, hsame, hrun⟩ := copyElfCode_start h
  have hholds : HoldsFile mem size s.mem := fun a ha => hsame a (h.file ha)
  obtain ⟨hlong, hshort⟩ := copySegments_spec h (ePhnum mem LOAD_KERNEL_ADDR) 0 11 s
    (Nat.zero_add _) (by omega) hs hholds
  have hscreen := hrel.output
  rw [hrun] at hscreen
  have hloop := hlong (Relocation.onScreen_of_printField hscreen)
  obtain ⟨hlast, _⟩ := hshort hloop
  have hline := ((Relocation.printField_onScreen (by omega)).mp hscreen).2
  unfold lastLine
  omega

/-- With few lines the kernel is relocated. -/
theorem relocated_of_lastLine (h : Relocates mem size) (hle : lastLine mem ≤ 203) :
    Relocated mem (copyElfCode mem) := by
  obtain ⟨s, hs, hsame, hrun⟩ := copyElfCode_start h
  have hholds : HoldsFile mem size s.mem := fun a ha => hsame a (h.file ha)
  unfold lastLine at hle
  obtain ⟨hlast, hscreen, hcopies⟩ := (copySegments_spec h (ePhnum mem LOAD_KERNEL_ADDR) 0 11 s
    (Nat.zero_add _) (by omega) hs hholds).2 (by omega)
  have hline : (copySegments 0 11 (phdr mem LOAD_KERNEL_ADDR 0) s).1 + 1 ≤ 203 := by omega
  have hfinal := (hcopies.before
    (Relocation.printField_same hline _ (LOAD_KERNEL_ADDR + 24))).after hsame
  rw [hrun]
  refine ⟨fun i hi j hj => ?_, fun a ha hout => ?_, ?_, rfl⟩
  · have hlt := hi.1
    exact hfinal.copied (h.relocatable 0 _) _
      (mem_segmentList.mpr ⟨i, Nat.zero_le i, by omega, hi, rfl⟩) j hj
  · refine hfinal.kept ha fun s hs hc => ?_
    obtain ⟨i, _, _, hi, rfl⟩ := mem_segmentList.mp hs
    exact hout i hi hc
  · exact (Relocation.printField_onScreen (by omega)).mpr ⟨hscreen, hline⟩

/-- The loader relocates the kernel, with all output in the video memory, if and only if the
    last line that it prints is above line 204. -/
theorem copyElfCode_iff (h : Relocates mem size) :
    Relocated mem (copyElfCode mem) ↔ lastLine mem ≤ 203 :=
  ⟨fun hrel => hrel.lastLine_le h, relocated_of_lastLine h⟩

end

/-! ### Kernels -/

/-- A file at `LOAD_KERNEL_ADDR`. -/
def kernelMem (file : List Byte) : Mem := fun a => file.getD (a - LOAD_KERNEL_ADDR).toNat 0

/-- A kernel with one PT_LOAD. -/
theorem kernelMem_echo : Relocates (kernelMem echoFile) 88 := by
  have hnum : ePhnum (kernelMem echoFile) LOAD_KERNEL_ADDR = 1 := by decide
  have hone : ∀ {i}, PtLoad (kernelMem echoFile) LOAD_KERNEL_ADDR i → i = 0 := by
    intro i hi
    have hlt := hi.1
    omega
  have haddr : pVaddr (kernelMem echoFile) LOAD_KERNEL_ADDR 0 = 0x102000 := by decide
  have hlen : pFilesz (kernelMem echoFile) LOAD_KERNEL_ADDR 0 = 4 := by decide
  have hseg : (pOffset (kernelMem echoFile) LOAD_KERNEL_ADDR 0).toNat + 4 ≤ 88 := by decide
  refine ⟨⟨by decide, by decide, fun i hi => ?_⟩, by decide, fun i hi a ha hin => ?_,
    fun i hi a ha hin => ?_, fun i i' hne hi hi' => ?_⟩
  · obtain rfl := hone hi
    omega
  · obtain rfl := hone hi
    obtain ⟨j, hj, rfl⟩ := hin
    rw [haddr, hlen] at ha
    unfold InBlock LOAD_KERNEL_ADDR at ha
    bv_omega
  · obtain rfl := hone hi
    rw [haddr, hlen] at ha
    unfold InBlock at ha
    unfold InTextMemory at hin
    bv_omega
  · exact absurd ((hone hi).trans (hone hi').symm) hne

theorem copyElfCode_iff_echo :
    Relocated (kernelMem echoFile) (copyElfCode (kernelMem echoFile)) :=
  (copyElfCode_iff kernelMem_echo).mpr (by decide)

/-- The header of an ELF file with 192 program headers right behind it, all of them zero
    (PT_NULL). -/
def nullFile : List Byte :=
  [0x7f, 0x45, 0x4c, 0x46, 1, 1, 1] ++ List.replicate 9 0 ++ [2, 0, 3, 0] ++ bytesOf 1 ++
    bytesOf 0x100000 ++ bytesOf 52 ++ bytesOf 0 ++ bytesOf 0 ++ [52, 0, 32, 0, 192, 0]

/-- Behind the end of the file there is nothing. -/
theorem kernelMem_behind {file : List Byte} {a : Addr}
    (h : file.length ≤ (a - LOAD_KERNEL_ADDR).toNat) : kernelMem file a = 0 := by
  rw [kernelMem, List.getD_eq_getElem?_getD, List.getElem?_eq_none h]
  rfl

theorem nullFile_ptLoad {i : ℕ} : ¬ PtLoad (kernelMem nullFile) LOAD_KERNEL_ADDR i := by
  have hnum : ePhnum (kernelMem nullFile) LOAD_KERNEL_ADDR = 192 := by decide
  have hphoff : ePhoff (kernelMem nullFile) LOAD_KERNEL_ADDR = 52 := by decide
  have hlen : nullFile.length = 46 := by decide
  rintro ⟨hi, hone⟩
  rw [hnum] at hi
  have hnull : readWord (kernelMem nullFile) (phdr (kernelMem nullFile) LOAD_KERNEL_ADDR i) =
      readWord (fun _ => 0) 0 := by
    refine readWord_congr fun j hj => kernelMem_behind ?_
    rw [hlen, phdr, hphoff]
    unfold LOAD_KERNEL_ADDR
    bv_omega
  rw [hnull] at hone
  exact absurd hone (by decide)

theorem nullFile_relocates : Relocates (kernelMem nullFile) 6196 := by
  refine ⟨⟨by decide, by decide, fun i hi => ?_⟩, by decide, fun i hi => ?_, fun i hi => ?_,
    fun i i' _ hi => ?_⟩
  all_goals exact absurd hi nullFile_ptLoad

/-- A number on line 204 changes the byte behind the video memory: `clear_line` puts a blank
    there. -/
theorem printField_end (s : Relocation) (field : Addr) :
    (s.printField 204 field).mem 0xc0000 = 0x20 := by
  have hclear : ∀ mem : Mem, (clearLine (BitVec.ofNat 8 204)).write mem 0xc0000 = 0x20 :=
    fun _ => rfl
  have hnumber : ∀ i : BitVec 32, ∀ w ∈ s32PrintInt i (lineAddr 204) 16, w.1 ≠ 0xc0000 := by
    intro i w hw heq
    have hin := s32PrintInt_inText (n := 160 * 204) (by omega) w hw
    rw [heq] at hin
    exact absurd hin (by decide)
  unfold Relocation.printField Relocation.put
  dsimp only
  rw [Output.write_out (hnumber _), hclear]

/-- Its last line is line 204, and the byte behind the video memory changes. -/
theorem too_many_headers :
    Relocates (kernelMem nullFile) 6196 ∧
      (copyElfCode (kernelMem nullFile)).1.mem 0xc0000 ≠ kernelMem nullFile 0xc0000 ∧
      ¬ Relocated (kernelMem nullFile) (copyElfCode (kernelMem nullFile)) := by
  have hnum : ePhnum (kernelMem nullFile) LOAD_KERNEL_ADDR = 192 := by decide
  have hloads : loadCount (kernelMem nullFile) 0 192 = 0 := by
    unfold loadCount
    rw [List.countP_eq_zero]
    exact fun i _ => by simpa using nullFile_ptLoad
  obtain ⟨s, hs, hsame, hrun⟩ := copyElfCode_start nullFile_relocates
  have hholds : HoldsFile (kernelMem nullFile) 6196 s.mem :=
    fun a ha => hsame a (nullFile_relocates.file ha)
  obtain ⟨hlast, _⟩ := (copySegments_spec nullFile_relocates 192 0 11 s (by rw [hnum]) (by omega)
    hs hholds).2 (by rw [hloads])
  rw [hloads] at hlast
  have hend : (copyElfCode (kernelMem nullFile)).1.mem 0xc0000 = 0x20 := by
    rw [hrun, hlast]
    exact printField_end _ _
  have hchanged : (copyElfCode (kernelMem nullFile)).1.mem 0xc0000 ≠
      kernelMem nullFile 0xc0000 := by
    rw [hend]
    decide
  refine ⟨nullFile_relocates, hchanged, fun h => hchanged ?_⟩
  exact h.frame 0xc0000 (by decide) fun i hi => absurd hi nullFile_ptLoad

end SimpleOs
