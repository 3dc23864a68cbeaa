import SimpleOs.Loader.Relocate
import SimpleOs.Loader.Search

/-!
# From the floppy to the kernel

The whole way of a kernel: `start_c` finds the file in the root directory and loads its
clusters at `LOAD_KERNEL_ADDR` (kernel_loader/kernel_loader.c:581-667, 670-880), and in
protected mode `copy_elf_code` copies the segments to where they are linked and jumps to the
entry point (kernel_loader/protected_code.c:46-122).

Between the two the loader prints, dumps a few bytes, waits for a key and loads the segment
registers. All that is asked of this part is that it leaves the file alone.

* `startC_boots`: which bytes of the floppy are where when the kernel starts.
-/

namespace SimpleOs

open ByteMem Fat12

/-! ## A file in the memory -/

/-- The bytes of a file, from `LOAD_KERNEL_ADDR` on. -/
def kernelAt (data : ℕ → Byte) : Mem := fun a => data (a - LOAD_KERNEL_ADDR).toNat

/-- Byte `i` of the file that is in the clusters. -/
def fileByte (v : Volume) (clusters : List ℕ) (i : ℕ) : Byte :=
  match clusters[i / 512]? with
  | some c => v.sector (v.clusterSector c) (i % 512)
  | none => 0

theorem kernelAt_add {data : ℕ → Byte} {i : ℕ} (hi : i < 2 ^ 32) :
    kernelAt data (LOAD_KERNEL_ADDR + BitVec.ofNat 32 i) = data i := by
  have hoff : (LOAD_KERNEL_ADDR + BitVec.ofNat 32 i - LOAD_KERNEL_ADDR).toNat = i := by
    unfold LOAD_KERNEL_ADDR
    bv_omega
  unfold kernelAt
  rw [hoff]

section Holds

variable {m₀ mem : Mem} {size : ℕ}

/-- The same bytes can be relocated. -/
theorem Relocates.congr (h : Relocates m₀ size) (hm : HoldsFile m₀ size mem) :
    Relocates mem size := by
  have hsame := hm.same h
  have hseg : ∀ {i}, PtLoad mem LOAD_KERNEL_ADDR i → PtLoad m₀ LOAD_KERNEL_ADDR i ∧
      pVaddr mem LOAD_KERNEL_ADDR i = pVaddr m₀ LOAD_KERNEL_ADDR i ∧
      pFilesz mem LOAD_KERNEL_ADDR i = pFilesz m₀ LOAD_KERNEL_ADDR i := by
    intro i hi
    have hi' := hsame.ptLoad.mp hi
    exact ⟨hi', (hsame.fields hi').2.1, (hsame.fields hi').2.2⟩
  refine ⟨⟨h.elf.header, ?_, fun i hi => ?_⟩, h.size_le, fun i hi a ha => ?_,
    fun i hi a ha => ?_, fun i i' hne hi hi' a ha => ?_⟩
  · rw [hsame.phoff, hsame.phnum]
    exact h.elf.phdrs
  · have hi' := hsame.ptLoad.mp hi
    rw [(hsame.fields hi').1, (hsame.fields hi').2.2]
    exact h.elf.segments i hi'
  · obtain ⟨hi', hvaddr, hfilesz⟩ := hseg hi
    rw [hvaddr, hfilesz] at ha
    exact h.buffer i hi' a ha
  · obtain ⟨hi', hvaddr, hfilesz⟩ := hseg hi
    rw [hvaddr, hfilesz] at ha
    exact h.video i hi' a ha
  · obtain ⟨hi₁, hvaddr₁, hfilesz₁⟩ := hseg hi
    obtain ⟨hi₂, hvaddr₂, hfilesz₂⟩ := hseg hi'
    rw [hvaddr₁, hfilesz₁] at ha
    rw [hvaddr₂, hfilesz₂]
    exact h.apart i i' hne hi₁ hi₂ a ha

/-- The loader prints as many lines. -/
theorem HoldsFile.lastLine_eq (hm : HoldsFile m₀ size mem) (h : Relocates m₀ size) :
    lastLine mem = lastLine m₀ := by
  have hsame := hm.same h
  have hcount : loadCount mem 0 (ePhnum m₀ LOAD_KERNEL_ADDR) =
      loadCount m₀ 0 (ePhnum m₀ LOAD_KERNEL_ADDR) := by
    unfold loadCount
    refine List.countP_congr fun i _ => ?_
    simp only [decide_eq_true_eq]
    exact hsame.ptLoad
  unfold lastLine
  rw [hsame.phnum, hcount]

/-- A longer file, as long as nothing is copied to its end. -/
theorem Relocates.of_le {size' : ℕ} (h : Relocates m₀ size) (hle : size ≤ size')
    (hfit : LOAD_KERNEL_ADDR.toNat + size' ≤ 2 ^ 32)
    (hbuffer : ∀ i, PtLoad m₀ LOAD_KERNEL_ADDR i → ∀ a,
      InBlock (pVaddr m₀ LOAD_KERNEL_ADDR i) (pFilesz m₀ LOAD_KERNEL_ADDR i) a →
        ¬ InFile LOAD_KERNEL_ADDR size' a) : Relocates m₀ size' :=
  ⟨⟨h.elf.header.trans hle, h.elf.phdrs.trans hle, fun i hi => (h.elf.segments i hi).trans hle⟩,
    hfit, hbuffer, h.video, h.apart⟩

end Holds

/-- What has been loaded is the file. -/
theorem Loaded.holdsFile {v : Volume} {clusters : List ℕ} {s s' : Loader}
    (h : Loaded v clusters s s') (hstart : s.kernelAddr = LOAD_KERNEL_ADDR) {size : ℕ}
    (hsize : size ≤ 512 * clusters.length) (hlen : clusters.length ≤ 0xff7) :
    HoldsFile (kernelAt (fileByte v clusters)) size s'.mem := by
  rintro a ⟨i, hi, rfl⟩
  have hq : i / 512 < clusters.length := by omega
  have hat := h.contents (i / 512) hq (i % 512) (Nat.mod_lt i (by omega))
  rw [hstart, Nat.div_add_mod] at hat
  rw [hat, kernelAt_add (by omega), fileByte, List.getElem?_eq_getElem hq]

/-! ## The way of the kernel -/

/-- The kernel `data` runs: its segments are where they are linked, the rest of the memory is as
    it was but for the output in the video memory, and the loader jumps to the entry point. -/
structure KernelRuns (data : ℕ → Byte) (mem : Mem) (run : Relocation × Addr) : Prop where
  segments : ∀ i, PtLoad (kernelAt data) LOAD_KERNEL_ADDR i →
    ∀ j < pFilesz (kernelAt data) LOAD_KERNEL_ADDR i,
      run.1.mem (pVaddr (kernelAt data) LOAD_KERNEL_ADDR i + BitVec.ofNat 32 j) =
        data ((pOffset (kernelAt data) LOAD_KERNEL_ADDR i).toNat + j)
  rest : ∀ a, ¬ InTextMemory a → (∀ i, PtLoad (kernelAt data) LOAD_KERNEL_ADDR i →
    ¬ InBlock (pVaddr (kernelAt data) LOAD_KERNEL_ADDR i)
      (pFilesz (kernelAt data) LOAD_KERNEL_ADDR i) a) → run.1.mem a = mem a
  output : run.1.OnScreen
  entry : run.2 = eEntry (kernelAt data) LOAD_KERNEL_ADDR

/-- From any memory that holds the file. -/
theorem copyElfCode_runs {data : ℕ → Byte} {size : ℕ} {mem : Mem}
    (h : Relocates (kernelAt data) size) (hlines : lastLine (kernelAt data) ≤ 203)
    (hm : HoldsFile (kernelAt data) size mem) : KernelRuns data mem (copyElfCode mem) := by
  have hsame := hm.same h
  have hline : lastLine mem ≤ 203 := by
    rw [hm.lastLine_eq h]
    exact hlines
  have hrel := relocated_of_lastLine (h.congr hm) hline
  refine ⟨fun i hi j hj => ?_, fun a ha hout => hrel.frame a ha fun i hi hin => ?_, hrel.output,
    hrel.entry.trans hsame.entry⟩
  · obtain ⟨hoffset, hvaddr, hfilesz⟩ := hsame.fields hi
    have hcopied := hrel.copied i (hsame.ptLoad.mpr hi) j (by omega)
    have hseg := h.elf.segments i hi
    have hsize := h.size_le
    have haddr : LOAD_KERNEL_ADDR + pOffset (kernelAt data) LOAD_KERNEL_ADDR i +
        BitVec.ofNat 32 j = LOAD_KERNEL_ADDR +
          BitVec.ofNat 32 ((pOffset (kernelAt data) LOAD_KERNEL_ADDR i).toNat + j) := by
      rw [← add_ofNat_add, BitVec.ofNat_toNat, BitVec.setWidth_eq]
    rw [hvaddr, hoffset, haddr] at hcopied
    rw [hcopied, hm _ ⟨_, by omega, rfl⟩, kernelAt_add (by omega)]
  · have hi' := hsame.ptLoad.mp hi
    obtain ⟨-, hvaddr, hfilesz⟩ := hsame.fields hi'
    rw [hvaddr, hfilesz] at hin
    exact hout i hi' hin

section Whole

variable {v : Volume} {bpb : Bpb} {bios : Bios} {k c : ℕ} {l : List ℕ} {s : Loader}

/-- A floppy with a file has its boot sector and its root directory. -/
theorem Floppy.image (h : Floppy v bpb) (hc : v.IsData c) : FloppyImage v bpb := by
  have hlt := h.dataStart_lt hc
  exact ⟨h.boot.root, h.bytesPerSector, h.sectors, by omega, by omega⟩

/-- `load_file_to_ram` loads a file that ends with the mark `0xfff`, when it is told whether
    there is more than one cluster. -/
theorem loadFileToRam_loads {int13 : Int13} (hbios : Delivers int13 v) (h : Floppy v bpb)
    (hchain : v.Chain 0xfff c l) {fat : ℤ} (hfat : fat = 0 ↔ l = []) (s : Loader) :
    ∃ fuel s', loadFileToRam int13 (startBpb (v.sector 0) bpb) fuel c fat s = some s' ∧
      Loaded v (c :: l) s s' := by
  have hmark : Volume.IsEndMark 0xfff := ⟨by omega, by omega⟩
  have hlen := hchain.length_le (hchain.nodup hmark.not_isData)
  have hfirst := loaded_loadSector hbios h hchain.isData_head s
  rw [List.length_cons] at hlen
  unfold loadFileToRam
  dsimp only
  by_cases hone : fat = 0
  · rw [hfat.mp hone]
    exact ⟨0, _, if_neg (not_not_intro hone), hfirst⟩
  · obtain ⟨fuel, s', hloop, hloaded⟩ := loadLoop_loads hbios h hchain
      (loadSector int13 (startBpb (v.sector 0) bpb) c s) (by omega)
    refine ⟨fuel, s', ?_, hfirst.append hloaded ?_⟩
    · rw [if_pos hone, BitVec.ofInt_natCast]
      exact hloop
    · rw [List.length_singleton]
      omega

/-- The size in the directory says how many clusters the file has. -/
def SizeFits (v : Volume) (k : ℕ) (l : List ℕ) : Prop :=
  512 * l.length < (v.fileSize k).toNat ∧ (v.fileSize k).toNat ≤ 512 * (l.length + 1)

/-- For every floppy with the geometry that the loader assumes, and every kernel on it that is
    the first entry with its name, ends with the mark `0xfff` and can be relocated: `start_c`
    loads it, and `copy_elf_code` starts it, whatever happens to the memory outside the file in
    between. -/
theorem startC_boots (hbios : Delivers bios.int13 v) (h : Floppy v bpb)
    (hk : v.FirstFile kernelName k) (hfirst : ∀ m < k, ¬ LooksLike v kernelName m)
    (hchain : v.Chain 0xfff (v.firstCluster k).toNat l) (hsize : SizeFits v k l)
    (hrel : Relocates (kernelAt (fileByte v ((v.firstCluster k).toNat :: l)))
      (v.fileSize k).toNat)
    (hlines : lastLine (kernelAt (fileByte v ((v.firstCluster k).toNat :: l))) ≤ 203)
    (hstart : s.kernelAddr = LOAD_KERNEL_ADDR) (buff : ℕ → Byte) :
    ∃ fuel s', startC bios bpb buff fuel s = some s' ∧
      (∀ a, ¬ InBlock LOAD_KERNEL_ADDR (512 * (l.length + 1)) a → s'.mem a = s.mem a) ∧
      ∀ mem, HoldsFile s'.mem (v.fileSize k).toNat mem →
        KernelRuns (fileByte v ((v.firstCluster k).toNat :: l)) mem (copyElfCode mem) := by
  have hmark : Volume.IsEndMark 0xfff := ⟨by omega, by omega⟩
  have hlen := hchain.length_le (hchain.nodup hmark.not_isData)
  have hlt := hk.lt
  obtain ⟨hmore, hless⟩ := hsize
  have himage := h.image hchain.isData_head
  obtain ⟨hcluster, hfileSize, -⟩ := searchRoot_found hbios himage hk.lt
    (fun m hm => ⟨hk.notEnd m (by omega), hfirst m hm⟩) (hk.notEnd k (Nat.le_refl k))
    (looksLike_of_isFile hk.file) (bios (rootRead 0) buff)
  -- `load_file_to_ram` follows the chain only when the file is longer than a sector
  have hfat : (if 512 < (v.fileSize k).toNat then (1 : ℤ) else 0) = 0 ↔ l = [] := by
    rw [← List.length_eq_zero_iff]
    split_ifs
    · omega
    · omega
  obtain ⟨fuel, s', hload, hloaded⟩ := loadFileToRam_loads hbios h hchain hfat s
  refine ⟨fuel, s', ?_, fun a ha => hloaded.rest a ?_, fun mem hmem => ?_⟩
  · unfold startC
    rw [startSearch_eq hbios himage buff]
    dsimp only
    rw [hcluster, hfileSize]
    exact hload
  · rw [hstart]
    exact ha
  · have hholds : HoldsFile (kernelAt (fileByte v ((v.firstCluster k).toNat :: l)))
        (v.fileSize k).toNat s'.mem := by
      apply hloaded.holdsFile hstart _ hlen
      rw [List.length_cons]
      exact hless
    exact copyElfCode_runs hrel hlines fun a ha => (hmem a ha).trans (hholds a ha)

end Whole

/-! ### A floppy with a kernel -/

/-- A floppy with `echoFile` as the kernel, in the clusters 2 and 3. -/
def bootFloppy : Volume :=
  { sampleFloppy 0xf with
    sector := fun n i =>
      if n = 0 then sampleBoot i
      else if n = 1 then
        match i with
        | 3 => 3
        | 4 => 0xf0
        | 5 => 0xff
        | _ => 0
      else if n = 19 ∧ i < 32 then kernelEntry i
      else if n = 33 then echoFile.getD i 0
      else 0 }

theorem bootFloppy_floppy : Floppy bootFloppy sampleBpb := by
  have h := sampleFloppy_floppy 0xf
  exact ⟨⟨h.boot.bytePerSector, h.boot.sectorPerCluster, h.boot.bootOccupySector, h.boot.fatCount,
    h.boot.rootEntryCount, h.boot.fatOccupySector, h.boot.sectorPerTrack, h.boot.headCount⟩,
    h.bytesPerSector, h.sectorsPerCluster, h.reserved, h.fats, h.rootEntries, h.sectors, h.table⟩

theorem fileByte_bootFloppy (i : ℕ) : fileByte bootFloppy [2, 3] i = echoFile.getD i 0 := by
  have hlen : echoFile.length = 88 := by decide
  have hbehind : 512 ≤ i → echoFile.getD i 0 = 0 := by
    intro hi
    rw [List.getD_eq_getElem?_getD, List.getElem?_eq_none (by omega)]
    rfl
  have hfirst : bootFloppy.clusterSector 2 = 33 := by decide
  have hsecond : bootFloppy.clusterSector 3 = 34 := by decide
  unfold fileByte
  by_cases h0 : i < 512
  · rw [Nat.div_eq_of_lt h0, Nat.mod_eq_of_lt h0]
    show bootFloppy.sector (bootFloppy.clusterSector 2) i = _
    rw [hfirst]
    rfl
  · rw [hbehind (by omega)]
    by_cases h1 : i < 1024
    · rw [show i / 512 = 1 by omega]
      show bootFloppy.sector (bootFloppy.clusterSector 3) (i % 512) = _
      rw [hsecond]
      rfl
    · rw [List.getElem?_eq_none (by simp; omega)]

theorem bootFloppy_relocates :
    Relocates (kernelAt (fileByte bootFloppy [2, 3])) 600 ∧
      lastLine (kernelAt (fileByte bootFloppy [2, 3])) ≤ 203 := by
  have hmem : kernelAt (fileByte bootFloppy [2, 3]) = kernelMem echoFile := by
    funext a
    exact fileByte_bootFloppy _
  have haddr : ∀ i, PtLoad (kernelMem echoFile) LOAD_KERNEL_ADDR i →
      pVaddr (kernelMem echoFile) LOAD_KERNEL_ADDR i = 0x102000 ∧
        pFilesz (kernelMem echoFile) LOAD_KERNEL_ADDR i = 4 := by
    intro i hi
    have hlt : i < 1 := hi.1
    obtain rfl : i = 0 := by omega
    exact ⟨by decide, by decide⟩
  rw [hmem]
  refine ⟨kernelMem_echo.of_le (by omega) (by decide) fun i hi a ha hin => ?_, by decide⟩
  obtain ⟨hvaddr, hfilesz⟩ := haddr i hi
  obtain ⟨j, hj, rfl⟩ := hin
  rw [hvaddr, hfilesz] at ha
  unfold InBlock LOAD_KERNEL_ADDR at ha
  bv_omega

theorem startC_boots_echo :
    ∃ fuel s', startC (sampleBios bootFloppy) sampleBpb (fun _ => 0) fuel sampleLoader = some s' ∧
      KernelRuns (fileByte bootFloppy [2, 3]) s'.mem (copyElfCode s'.mem) := by
  have hfile : bootFloppy.FirstFile kernelName 0 := by
    refine ⟨by decide, fun m hm => ?_, ⟨?_, ?_, ?_⟩, fun m hm => absurd hm (Nat.not_lt_zero m)⟩
    · obtain rfl : m = 0 := by omega
      change ¬ bootFloppy.dirByte 0 0 = 0
      decide
    · change ¬ bootFloppy.dirByte 0 0 = 0xe5
      decide
    · change ¬ (bootFloppy.dirByte 0 0x0b).getLsbD 3 = true
      decide
    · decide
  have hcluster : (bootFloppy.firstCluster 0).toNat = 2 := by decide
  have hsize : (bootFloppy.fileSize 0).toNat = 600 := by decide
  have hchain : bootFloppy.Chain 0xfff 2 [3] :=
    .next ⟨by decide, by decide, by decide⟩ (by decide)
      (.last ⟨by decide, by decide, by decide⟩ (by decide))
  obtain ⟨hrel, hlines⟩ := bootFloppy_relocates
  obtain ⟨fuel, s', hload, -, hruns⟩ := startC_boots (l := [3])
    (sampleBios_delivers _) bootFloppy_floppy hfile (fun m hm => absurd hm (Nat.not_lt_zero m))
    (by rw [hcluster]; exact hchain) (by unfold SizeFits; rw [hsize]; decide)
    (by rw [hcluster, hsize]; exact hrel) (by rw [hcluster]; exact hlines) (s := sampleLoader) rfl
    (fun _ => 0)
  rw [hcluster] at hruns
  exact ⟨fuel, s', hload, hruns s'.mem fun a _ => rfl⟩

end SimpleOs
