import SimpleOs.Kernel.Progress
import SimpleOs.Mm.Isolation
import SimpleOs.Fs.Data
import SimpleOs.Fs.Elf

/-!
# Running a file

`do_execl` (mm/mm.c:288-324) reads a file of romfs into a block, copies its
segments into the memory of the caller and sets its `eip`. The name of the file
is `echo`, whatever the caller asked for, and there is no check that it exists.

* `readFile_eq`: what the block holds.
* `loadSegments_eq`: the segments arrive where the caller has them.
* `exec_echo`: when a request is answered as it should be.
-/

namespace SimpleOs

open ByteMem Bitmap

/-! ## Where things are -/

/-- `a` belongs to the blocks of the allocator. -/
def InPool (start a : Addr) : Prop := InBlock start (32 * blockSize) a

instance (start a : Addr) : Decidable (InPool start a) :=
  inferInstanceAs (Decidable (InBlock _ _ _))

theorem Fits.inPool {start : Addr} (h : Fits start) (i : Fin 32) {a : Addr}
    (ha : InBlock (blockAddr start i) blockSize a) : InPool start a := by
  have hi := i.isLt
  have haddr := h.blockAddr_toNat i
  have hbound := h.2
  unfold InPool InBlock at *
  generalize blockAddr start i = b at *
  unfold blockSize at *
  bv_omega

/-- What the reading of a file starts from: as for a lookup, with the device and
    the name apart from all blocks. -/
structure DiskLayout (sb : SuperBlock) (r : RomImage) (name : List Byte) (k : Machine)
    (dir : Addr) : Prop where
  fits : Fits k.mmStart
  above : kernelText ≤ k.mmStart.toNat ∧ kernelText ≤ dir.toNat
  stored : r.Stored k.mem sb.device.startPos sb.device.storageSize.toNat
  str : IsStr k.mem dir name
  disk : ∀ i < sb.device.storageSize.toNat,
    ¬ InPool k.mmStart (sb.device.startPos + BitVec.ofNat 32 i)
  outside : ∀ i ≤ name.length, ¬ InPool k.mmStart (dir + BitVec.ofNat 32 i)

/-- A block does not begin inside data that is apart from the blocks. -/
theorem noForwardOverlap_of_outside {start dest src : Addr} {n : ℕ}
    (hdest : InPool start dest) (hsrc : ∀ i < n, ¬ InPool start (src + BitVec.ofNat 32 i)) :
    NoForwardOverlap n dest src := by
  by_contra hc
  unfold NoForwardOverlap at hc
  apply hsrc (dest - src).toNat (by omega)
  rw [BitVec.ofNat_toNat, BitVec.setWidth_eq, show src + (dest - src) = dest by bv_omega]
  exact hdest

theorem Fits.out_of_block {start : Addr} (h : Fits start) (i : Fin 32) {n : ℕ} (hn : n ≤ blockSize)
    {a : Addr} (ha : ¬ InPool start a) : ¬ InBlock (blockAddr start i) n a :=
  fun hin => ha (h.inPool i (Nat.lt_of_lt_of_le hin hn))

theorem Fits.blockAddr_inPool {start : Addr} (h : Fits start) (i : Fin 32) :
    InPool start (blockAddr start i) := by
  apply h.inPool i
  unfold InBlock
  rw [BitVec.sub_self]
  decide

section

variable {sb : SuperBlock} {r : RomImage} {name : List Byte} {k : Machine} {dir : Addr}

/-- It depends on the memory and on where the blocks are. -/
theorem DiskLayout.congr (h : DiskLayout sb r name k dir) {k' : Machine} (hmem : k'.mem = k.mem)
    (hstart : k'.mmStart = k.mmStart) : DiskLayout sb r name k' dir where
  fits := hstart ▸ h.fits
  above := hstart ▸ h.above
  stored := hmem ▸ h.stored
  str := hmem ▸ h.str
  disk := hstart ▸ h.disk
  outside := hstart ▸ h.outside

theorem DiskLayout.size_le (h : DiskLayout sb r name k dir) :
    sb.device.storageSize.toNat ≤ blockSize := by
  have hsize := h.stored.size_le
  omega

theorem DiskLayout.namei (h : DiskLayout sb r name k dir) (hfree : 1 ≤ freeBlocks k.memoryUsed) :
    NameiLayout sb r name k dir := by
  obtain ⟨i, _, hbuf⟩ := allocMem_some (k := k) (by omega)
  refine ⟨h.fits, h.above, h.stored, h.str, ?_, ?_⟩
  · rw [hbuf]
    exact noForwardOverlap_of_outside (h.fits.blockAddr_inPool i) h.disk
  · rw [hbuf]
    exact fun j hj => h.fits.out_of_block i h.size_le (h.outside j hj)

/-! ## Reading it -/

/-- The inode that a lookup fills gives up the buffer. -/
theorem fillInode_bitmap {buf : Addr} {off : BitVec 32} {k' : Machine} {inode : Addr}
    (h : fillInode sb k buf dir off = .ok (k', inode)) :
    inode = (allocMem k).1 ∧ k'.memoryUsed = (freeMem (allocMem k).2 buf).memoryUsed ∧
      k'.mmStart = k.mmStart := by
  simp only [fillInode, bind_eq_ok, Except.ok.injEq, Prod.mk.injEq] at h
  obtain ⟨_, _, _, _, rfl, rfl⟩ := h
  refine ⟨rfl, ?_, ?_⟩
  · unfold freeMem
    split_ifs
    · rfl
    · rfl
  · rw [freeMem_mmStart]
    dsimp only
    rw [allocMem_snd]

/-- A lookup writes to blocks only, and leaves one free. -/
theorem DiskLayout.lookup_frame (h : DiskLayout sb r name k dir)
    (hfree : 2 ≤ freeBlocks k.memoryUsed) {off : BitVec 32} {k' : Machine}
    (hfilled : Filled (loaded sb k) (allocMem k).1 (allocMem (loaded sb k)).1 off k') :
    ∀ a, ¬ InPool k.mmStart a → k'.mem a = k.mem a := by
  intro a ha
  have hfree' := loaded_freeBlocks sb k
  obtain ⟨i, _, hbuf⟩ := allocMem_some (k := k) (by omega)
  obtain ⟨j, _, hnew⟩ := allocMem_some (k := loaded sb k) (by omega)
  rw [loaded_mmStart] at hnew
  -- neither the inode nor the copy of the device
  have hout : ¬ InBlock (allocMem (loaded sb k)).1 20 a := by
    rw [hnew]
    exact h.fits.out_of_block j (by decide) ha
  have hout' : ¬ InBlock (allocMem k).1 sb.device.storageSize.toNat a := by
    rw [hbuf]
    exact h.fits.out_of_block i h.size_le ha
  rw [hfilled.frame a hout]
  unfold loaded ramdiskDout pAsmMemcpy
  dsimp only
  rw [copy_out hout', hbuf]

/-- `alloc_mem` finds the buffer that a lookup has given up. -/
theorem alloc_after_lookup {buf inode : Addr} {off : BitVec 32} {k' : Machine} {i : Fin 32}
    (hfits : Fits k.mmStart) (hbuf : buf = blockAddr k.mmStart i)
    (h : fillInode sb k buf dir off = .ok (k', inode)) :
    ∃ j, allocMem k' =
      (blockAddr k.mmStart j, { k' with memoryUsed := Bitmap.set k'.memoryUsed j }) := by
  obtain ⟨_, hused, hstart⟩ := fillInode_bitmap h
  rcases allocMem_cases k' with ⟨j, _, hnew⟩ | ⟨hall, _⟩
  · refine ⟨j, ?_⟩
    rw [← hstart]
    exact hnew
  · have hmm : (allocMem k).2.mmStart = k.mmStart := by rw [allocMem_snd]
    have hclear : i ∉ bits k'.memoryUsed := by
      rw [hused, hbuf, ← hmm, freeMem_block (by rw [hmm]; exact hfits) i, bits_clear]
      exact Finset.notMem_erase i _
    rw [hall] at hclear
    exact absurd (Finset.mem_univ i) hclear

/-- A lookup that finds a file fills an inode for it and writes to blocks only. -/
theorem DiskLayout.found (h : DiskLayout sb r name k dir) (hs : LookupSound r name k.memoryUsed)
    {g : RomHeader} (hlookup : r.lookup name = some g)
    (hreg : beWord k.mem (sb.device.startPos + BitVec.ofNat 32 g.offset) &&& 7 = 2)
    (hne : g.size ≠ 0) (hfits : g.dataOffset + g.size.toNat ≤ sb.device.storageSize.toNat) :
    2 ≤ freeBlocks k.memoryUsed ∧
    ∃ k₁, romfsNamei sb k dir = .ok (k₁, (allocMem (loaded sb k)).1) ∧
      fillInode sb (loaded sb k) (allocMem k).1 dir (BitVec.ofNat 32 g.offset) =
        .ok (k₁, (allocMem (loaded sb k)).1) ∧
      FileInode sb.device k₁.mem g (allocMem (loaded sb k)).1 ∧
      ∀ a, ¬ InPool k.mmStart a → k₁.mem a = k.mem a := by
  have hmem : g ∈ r.root := List.mem_of_find?_eq_some hlookup
  have hgname : g.name = name := by simpa using List.find?_some hlookup
  obtain ⟨hmod, hfirst, hfree⟩ := hs.held ⟨g, hmem, hgname⟩
  have hlayout := h.namei (by omega)
  obtain ⟨hrest, hwalk⟩ := RomImage.walk_lookup hmod hfirst hlookup
  obtain ⟨k₁, hk₁, hfilled, hapart⟩ := hlayout.found hs.volume hs.screen hwalk
  have hframe := h.lookup_frame hfree hfilled
  have hdisk : SameBytes k.mem k₁.mem sb.device.startPos sb.device.startPos
      sb.device.storageSize.toNat := fun i hi => hframe _ (h.disk i hi)
  obtain ⟨_, _, hh⟩ := hlayout.loaded_stored.chain.mem hrest
  obtain ⟨_, next, hheader⟩ := h.stored.chain.mem hrest
  have hlt := hheader.name.length_lt
  refine ⟨hfree, k₁, hk₁, ?_, ?_, hframe⟩
  · rw [hlayout.romfsNamei_eq hs.volume hs.screen, hwalk] at hk₁
    exact hk₁
  · refine ⟨⟨next, hheader.congr hdisk⟩, ?_, hne, hfits, hfilled.daddr,
      (hfilled.dsize (hapart hfree)).trans hh.dsize⟩
    rw [← hreg]
    congr 1
    apply beWord_congr
    intro i hi
    rw [add_ofNat_add]
    exact hdisk (g.offset + i) (by omega)

/-- A file that a lookup finds is read into a block. -/
theorem readFile_eq (h : DiskLayout sb r name k dir) (hs : LookupSound r name k.memoryUsed)
    {g : RomHeader} (hlookup : r.lookup name = some g) (hlen : name.length ≤ 15)
    (hreg : beWord k.mem (sb.device.startPos + BitVec.ofNat 32 g.offset) &&& 7 = 2)
    (hne : g.size ≠ 0) (hfits : g.dataOffset + g.size.toNat ≤ sb.device.storageSize.toNat) :
    ∃ k' i, readFile sb k dir = .ok (k', blockAddr k.mmStart i) ∧
      k'.mmStart = k.mmStart ∧
      SameBytes k.mem k'.mem (BitVec.ofNat 32 g.dataOffset + sb.device.startPos)
        (blockAddr k.mmStart i) g.size.toNat ∧
      ∀ a, ¬ InPool k.mmStart a → k'.mem a = k.mem a := by
  have hgname : g.name = name := by simpa using List.find?_some hlookup
  obtain ⟨hfree, k₁, hk₁, hfill, hfile, hframe⟩ := h.found hs hlookup hreg hne hfits
  have haddr : romfsGetDaddr k₁.mem (allocMem (loaded sb k)).1 = BitVec.ofNat 32 g.dataOffset := by
    rw [hfile.getDaddr_eq]
    exact hfile.dataOffset_iff.mpr (by rw [hgname]; exact hlen)
  obtain ⟨i, _, hbuf⟩ := allocMem_some (k := k) (by omega)
  have hstart := loaded_mmStart sb k
  obtain ⟨j, hnew⟩ := alloc_after_lookup (k := loaded sb k) (by rw [hstart]; exact h.fits)
    (by rw [hbuf, hstart]) hfill
  have hmm := (fillInode_bitmap hfill).2.2
  rw [hstart] at hnew hmm
  have hsrc : ∀ i < g.size.toNat, ¬ InPool k.mmStart
      (BitVec.ofNat 32 g.dataOffset + sb.device.startPos + BitVec.ofNat 32 i) := by
    intro i hi
    rw [BitVec.add_comm (BitVec.ofNat 32 g.dataOffset), add_ofNat_add]
    exact h.disk _ (by omega)
  have hsize : g.size.toNat ≤ blockSize := by
    have hle := h.size_le
    omega
  have hmax : blockSize < 2 ^ 32 := by decide
  refine ⟨{ k₁ with
    mem := ramdiskDout sb.device k₁.mem (blockAddr k.mmStart j)
      (BitVec.ofNat 32 g.dataOffset) g.size
    memoryUsed := Bitmap.set k₁.memoryUsed j }, j, ?_, hmm, ?_, ?_⟩
  · unfold readFile
    rw [hk₁]
    simp only [bind, Except.bind]
    rw [haddr, hnew]
    dsimp only
    rw [hfile.dsize]
  · intro i hi
    unfold ramdiskDout pAsmMemcpy
    dsimp only
    rw [copy_dst (noForwardOverlap_of_outside (h.fits.blockAddr_inPool j) hsrc) hi (by omega)]
    exact hframe _ (hsrc i hi)
  · intro a ha
    unfold ramdiskDout pAsmMemcpy
    dsimp only
    rw [copy_out (h.fits.out_of_block j hsize ha), hframe a ha]

end

/-! ## Executables -/

section

variable (mem : Mem) (file : Addr)

/-- Where the segment number `i` goes in the memory of `src`. -/
def segmentAddr (t : ProcTable) (src : Pid) (i : ℕ) : Addr := linear t src (pVaddr mem file i)

/-- The segments have room in the memory of `src`: apart from the blocks, and
    from each other. -/
structure Loadable (t : ProcTable) (src : Pid) (start : Addr) : Prop where
  outside : ∀ i, PtLoad mem file i → ∀ j < pFilesz mem file i,
    ¬ InPool start (segmentAddr mem file t src i + BitVec.ofNat 32 j)
  apart : ∀ i i', i ≠ i' → PtLoad mem file i → PtLoad mem file i' → ∀ a,
    InBlock (segmentAddr mem file t src i) (pFilesz mem file i) a →
      ¬ InBlock (segmentAddr mem file t src i') (pFilesz mem file i') a

/-- The segments of the file, from the number `i` on, are in `mem'`. -/
def LoadedFrom (t : ProcTable) (src : Pid) (mem' : Mem) (i : ℕ) : Prop :=
  ∀ i' ≥ i, PtLoad mem file i' → ∀ j < pFilesz mem file i',
    mem' (segmentAddr mem file t src i' + BitVec.ofNat 32 j) =
      mem (file + pOffset mem file i' + BitVec.ofNat 32 j)

end

section

variable {start buf : Addr} {size : ℕ} {t : ProcTable} {src : Pid} {m₀ : Mem}

theorem SameElf.segmentAddr_same {mem mem' : Mem} {file file' : Addr}
    (h : SameElf mem mem' file file') {i : ℕ} (hi : PtLoad mem file i) :
    segmentAddr mem' file' t src i = segmentAddr mem file t src i := by
  unfold segmentAddr
  rw [(h.fields hi).2.1]

theorem Loadable.congr {mem mem' : Mem} {file file' : Addr} (hload : Loadable mem file t src start)
    (h : SameElf mem mem' file file') : Loadable mem' file' t src start := by
  constructor
  · intro i hi j hj
    have hi' := h.ptLoad.mp hi
    rw [(h.fields hi').2.2] at hj
    rw [h.segmentAddr_same hi']
    exact hload.outside i hi' j hj
  · intro i i' hne hi hi' a ha
    have h1 := h.ptLoad.mp hi
    have h2 := h.ptLoad.mp hi'
    rw [h.segmentAddr_same h1, (h.fields h1).2.2] at ha
    rw [h.segmentAddr_same h2, (h.fields h2).2.2]
    exact hload.apart i i' hne h1 h2 a ha

theorem IsElf.congr {mem mem' : Mem} {file file' : Addr} (h : IsElf mem file size)
    (hs : SameBytes mem mem' file file' size) : IsElf mem' file' size := by
  have hsame := h.same hs
  have hsize := h.header
  have hbyte : ∀ i < 5, mem' (file' + BitVec.ofNat 32 i) = mem (file + BitVec.ofNat 32 i) :=
    fun i hi => hs i (by omega)
  have h0 := hbyte 0 (by omega)
  rw [show file' + BitVec.ofNat 32 0 = file' by simp,
    show file + BitVec.ofNat 32 0 = file by simp] at h0
  refine ⟨⟨h0.trans h.magic.1, (hbyte 1 (by omega)).trans h.magic.2.1,
    (hbyte 2 (by omega)).trans h.magic.2.2.1, (hbyte 3 (by omega)).trans h.magic.2.2.2⟩,
    (hbyte 4 (by omega)).trans h.elfClass,
    (readHalf_same hs (by omega : 16 + 2 ≤ size)).trans h.type, hsize, ?_, ?_⟩
  · rw [hsame.phoff, hsame.phnum]
    exact h.phdrs
  · intro i hi
    have hi' := hsame.ptLoad.mp hi
    rw [(hsame.fields hi').1, (hsame.fields hi').2.2]
    exact h.segments i hi'

/-- The loop of `do_execl` copies the segments from the number `i` on, where the file is in
    `K` and no destination is. -/
theorem loadSegments_run {K : Addr → Prop} (helf : ElfFile m₀ buf size)
    (hfile : ∀ i < size, K (buf + BitVec.ofNat 32 i))
    (hdest : ∀ i, PtLoad m₀ buf i → ∀ a,
      InBlock (segmentAddr m₀ buf t src i) (pFilesz m₀ buf i) a → ¬ K a)
    (hflat : NativeFlat t) :
    ∀ (n i fuel : ℕ) (k : Machine), i + n = ePhnum m₀ buf → n < fuel → k.procTable = t →
      (∀ a, K a → k.mem a = m₀ a) →
      ∃ mem', loadSegments (proc2pid src) buf fuel i (phdr m₀ buf i) k =
          .ok { k with mem := mem' } ∧
        CopyRun (fun _ => False) (segmentList m₀ buf (segmentAddr m₀ buf t src) i n) k.mem mem' := by
  intro n
  induction n with
  | zero =>
    intro i fuel k hin hfuel htable hmem
    obtain ⟨fuel, rfl⟩ : ∃ n, fuel = n + 1 := ⟨fuel - 1, by omega⟩
    have hsame : SameElf m₀ k.mem buf buf := helf.same fun j hj => hmem _ (hfile j hj)
    have hphnum : (readHalf k.mem (buf + 44)).toNat = ePhnum m₀ buf := hsame.phnum
    refine ⟨k.mem, ?_, .done (.refl _ _)⟩
    rw [loadSegments, hphnum, if_neg (by omega)]
  | succ n ih =>
    intro i fuel k hin hfuel htable hmem
    obtain ⟨fuel, rfl⟩ : ∃ n, fuel = n + 1 := ⟨fuel - 1, by omega⟩
    have hi : i < ePhnum m₀ buf := by omega
    have hsame : SameElf m₀ k.mem buf buf := helf.same fun j hj => hmem _ (hfile j hj)
    have hphnum : (readHalf k.mem (buf + 44)).toNat = ePhnum m₀ buf := hsame.phnum
    have htype := hsame.type_in_place hi
    by_cases hone : readWord m₀ (phdr m₀ buf i) = 1
    · -- a segment to load: the fields are those of the file
      obtain ⟨hoffset, hvaddr, hfilesz⟩ := hsame.fields_in_place hi
      have hflat' : NativeFlat k.procTable := by rw [htable]; exact hflat
      have hmm : linear k.procTable TASK_MM (buf + pOffset m₀ buf i) = buf + pOffset m₀ buf i := by
        rw [linear, hflat' TASK_MM (by decide)]
        exact BitVec.zero_add _
      have hdest' : linear k.procTable src (pVaddr m₀ buf i) = segmentAddr m₀ buf t src i := by
        rw [htable]
        rfl
      set m₁ := copy k.mem (segmentAddr m₀ buf t src i) (buf + pOffset m₀ buf i)
        (pFilesz m₀ buf i) with hm₁
      have hmem₁ : ∀ a, K a → m₁ a = m₀ a :=
        fun a ha => (copy_out fun hc => hdest i ⟨hi, hone⟩ a hc ha).trans (hmem a ha)
      obtain ⟨mem', hrun, hcopies⟩ := ih (i + 1) fuel { k with mem := m₁ } (by omega) (by omega)
        htable hmem₁
      refine ⟨mem', ?_, ?_⟩
      · rw [loadSegments, hphnum, if_pos hi, htype, if_pos hone, va2la_ok hflat', va2la_ok hflat']
        simp only [bind, Except.bind]
        rw [hvaddr, hoffset, hfilesz, hmm, hdest', phdr_succ]
        exact hrun
      · rw [segmentList_load ⟨hi, hone⟩]
        exact .copy (.refl _ _) hcopies
    · obtain ⟨mem', hrun, hcopies⟩ := ih (i + 1) fuel k (by omega) (by omega) htable hmem
      refine ⟨mem', ?_, ?_⟩
      · rw [loadSegments, hphnum, if_pos hi, htype, if_neg hone, phdr_succ]
        exact hrun
      · rw [segmentList_skip fun h => hone h.2]
        exact hcopies

/-- The loop of `do_execl` loads the segments from the number `i` on and writes
    nothing else. -/
theorem loadSegments_eq (helf : IsElf m₀ buf size)
    (hpool : ∀ i < size, InPool start (buf + BitVec.ofNat 32 i))
    (hload : Loadable m₀ buf t src start) (hflat : NativeFlat t) :
    ∀ (n i fuel : ℕ) (k : Machine), i + n = ePhnum m₀ buf → n < fuel → k.procTable = t →
      (∀ a, InPool start a → k.mem a = m₀ a) →
      ∃ mem', loadSegments (proc2pid src) buf fuel i (phdr m₀ buf i) k =
          .ok { k with mem := mem' } ∧ LoadedFrom m₀ buf t src mem' i ∧
        ∀ a, (∀ i' ≥ i, PtLoad m₀ buf i' →
          ¬ InBlock (segmentAddr m₀ buf t src i') (pFilesz m₀ buf i') a) → mem' a = k.mem a := by
  intro n i fuel k hin hfuel htable hmem
  have hdest : ∀ i, PtLoad m₀ buf i → ∀ a,
      InBlock (segmentAddr m₀ buf t src i) (pFilesz m₀ buf i) a → ¬ InPool start a := by
    intro i hi a ha hpoola
    apply hload.outside i hi (a - segmentAddr m₀ buf t src i).toNat ha
    rwa [BitVec.ofNat_toNat, BitVec.setWidth_eq, BitVec.add_comm, BitVec.sub_add_cancel]
  have hreloc := helf.elfFile.relocatable (V := fun _ => False) hpool (fun _ _ => id)
    (fun i hi a ha => ⟨hdest i hi a ha, id⟩) hload.apart i n
  obtain ⟨mem', hrun, hcopies⟩ :=
    loadSegments_run helf.elfFile hpool hdest hflat n i fuel k hin hfuel htable hmem
  refine ⟨mem', hrun, fun i' hi' hload' j hj => ?_, fun a ha => hcopies.kept id fun s hs => ?_⟩
  · have hlt := hload'.1
    have hcopied := hcopies.copied hreloc _ (mem_segmentList.mpr ⟨i', hi', by omega, hload', rfl⟩)
      j hj
    exact hcopied.trans (hmem _ (hreloc.src _
      (mem_segmentList.mpr ⟨i', hi', by omega, hload', rfl⟩) j hj))
  · obtain ⟨i', hi', _, hload', rfl⟩ := mem_segmentList.mp hs
    exact ha i' hi' hload'

end

/-! ## The request -/

/-- The image of the memory manager with `do_execl` reading the file at `echo`
    from romfs; the machine supplies `mm_start`. -/
def romfsImage (img : MmImage) (sb : SuperBlock) (echo : Addr) (k₀ : Machine) : MmImage :=
  { img with
    loadEcho := fun mem used => do
      let (k, buf) ← readFile sb { k₀ with mem := mem, memoryUsed := used } echo
      .ok (k.mem, k.memoryUsed, buf) }

/-- `PATHNAME` is `u.m3.m3p1` (include/process.h:97). -/
abbrev offM3p1 : Addr := 40

/-- `mm_msg` holds an EXEC of `src` for the file `path` (`execl`,
    syscall.c:58-71). -/
structure ExecRequest (img : MmImage) (k : Machine) (src : Pid) (path : List Byte) : Prop where
  type : mmType img k = EXEC
  source : mmSource img k = proc2pid src
  nameLen : mmNameLen img k = path.length
  str : IsStr k.mem (linear k.procTable src (readWord k.mem (img.mmMsg + offM3p1))) path
  short : path.length < 256

/-- Where the data of a file stands on the device. -/
def fileAddr (sb : SuperBlock) (h : RomHeader) : Addr :=
  BitVec.ofNat 32 h.dataOffset + sb.device.startPos

/-- The root directory holds an executable with the name `path`. -/
structure Executable (sb : SuperBlock) (r : RomImage) (mem : Mem) (path : List Byte)
    (h : RomHeader) : Prop where
  lookup : r.lookup path = some h
  regular : beWord mem (sb.device.startPos + BitVec.ofNat 32 h.offset) &&& 7 = 2
  nonempty : h.size ≠ 0
  fits : h.dataOffset + h.size.toNat ≤ sb.device.storageSize.toNat
  elf : IsElf mem (fileAddr sb h) h.size.toNat

/-- What `task_mm` should do with the request: run the file, or change nothing
    and report a negative value. -/
def ExecCorrect (img : MmImage) (eax : BitVec 32) (k : Machine) (sb : SuperBlock) (r : RomImage)
    (path : List Byte) (src : Pid) : Prop :=
  ∃ k' retval, mmDispatch img eax k = .ok (k', .reply (proc2pid src) retval) ∧
    (∀ h, Executable sb r k.mem path h →
      (k'.procTable src).regs.eip = eEntry k.mem (fileAddr sb h) ∧
        LoadedFrom k.mem (fileAddr sb h) k.procTable src k'.mem 0) ∧
    ((¬ ∃ h, Executable sb r k.mem path h) →
      (∀ a, InSegment k.procTable src a → ¬ InPool k.mmStart a → k'.mem a = k.mem a) ∧
        (k'.procTable src).regs = (k.procTable src).regs ∧ retval.toInt < 0)

section

variable {img : MmImage} {sb : SuperBlock} {r : RomImage} {k k₀ : Machine} {echo : Addr}
  {src : Pid} {path : List Byte} {g : RomHeader}

/-- `do_execl` runs `echo`. -/
theorem doExecl_echo (hreq : ExecRequest img k src path) (hstart : k₀.mmStart = k.mmStart)
    (hdisk : DiskLayout sb r echoName k echo) (hs : LookupSound r echoName k.memoryUsed)
    (hecho : Executable sb r k.mem echoName g)
    (hload : Loadable k.mem (fileAddr sb g) k.procTable src k.mmStart)
    (hflat : NativeFlat k.procTable) :
    ∃ k', doExecl (romfsImage img sb echo k₀) k = .ok k' ∧
      (k'.procTable src).regs.eip = eEntry k.mem (fileAddr sb g) ∧
      LoadedFrom k.mem (fileAddr sb g) k.procTable src k'.mem 0 := by
  set k₁ : Machine := { k₀ with mem := k.mem, memoryUsed := k.memoryUsed } with hk₁
  have hmm : k₁.mmStart = k.mmStart := hstart
  have hdisk₁ : DiskLayout sb r echoName k₁ echo := hdisk.congr rfl hmm
  obtain ⟨k₂, i, hread, _, hbytes, _⟩ := readFile_eq hdisk₁ hs hecho.lookup (by decide)
    hecho.regular hecho.nonempty hecho.fits
  rw [hmm] at hread hbytes
  set buf := blockAddr k.mmStart i with hbuf
  have hsame : SameElf k.mem k₂.mem (fileAddr sb g) buf := hecho.elf.same hbytes
  have helf : IsElf k₂.mem buf g.size.toNat := hecho.elf.congr hbytes
  have hsize : g.size.toNat ≤ blockSize := by
    have hle := hdisk.size_le
    have hfits := hecho.fits
    omega
  have hpool : ∀ j < g.size.toNat, InPool k.mmStart (buf + BitVec.ofNat 32 j) := by
    intro j hj
    apply hdisk.fits.inPool i
    exact inBlock_add (by omega) (by decide)
  have hphnum : ePhnum k₂.mem buf < 65536 := BitVec.isLt _
  obtain ⟨mem', hrun, hloaded, _⟩ := loadSegments_eq helf hpool (hload.congr hsame) hflat
    (ePhnum k₂.mem buf) 0 65536 { k with mem := k₂.mem, memoryUsed := k₂.memoryUsed } (by omega)
    hphnum rfl fun a _ => rfl
  have hphdr : phdr k₂.mem buf 0 = buf + readWord k₂.mem (buf + 28) := by
    unfold phdr ePhoff
    simp
  rw [hphdr] at hrun
  have hlen : mmNameLen (romfsImage img sb echo k₀) k < 256 := by
    have hname : mmNameLen (romfsImage img sb echo k₀) k = path.length := hreq.nameLen
    have hshort := hreq.short
    omega
  have hsrc : mmSource (romfsImage img sb echo k₀) k = proc2pid src := hreq.source
  have hecho₁ : (romfsImage img sb echo k₀).loadEcho k.mem k.memoryUsed =
      .ok (k₂.mem, k₂.memoryUsed, buf) := by
    unfold romfsImage
    dsimp only
    rw [hread]
    rfl
  refine ⟨(freeMem { k with mem := mem', memoryUsed := k₂.memoryUsed } buf).modify src fun p =>
    { p with regs := { p.regs with eip := readWord k₂.mem (buf + 24) } }, ?_, ?_, ?_⟩
  · simp only [doExecl, bind_eq_ok, assert_eq_ok, exists_const]
    refine ⟨hlen, _, hecho₁, _, ?_, src, ?_, rfl⟩
    · rw [hsrc]
      exact hrun
    · rw [hsrc]
      exact slot_proc2pid src
  · rw [Machine.modify_procTable, Function.update_self]
    exact hsame.entry
  · rw [Machine.modify_mem, freeMem_mem]
    intro i' hi' hpt j hj
    have hpt' := hsame.ptLoad.mpr hpt
    obtain ⟨hoff, _, hfilesz⟩ := hsame.fields hpt
    have hseg := hecho.elf.segments i' hpt
    have hat := hloaded i' hi' hpt' j (by rw [hfilesz]; exact hj)
    rw [hsame.segmentAddr_same hpt, hoff] at hat
    refine hat.trans ?_
    have hbyte := hbytes ((pOffset k.mem (fileAddr sb g) i').toNat + j) (by omega)
    rw [← add_ofNat_add, ← add_ofNat_add, BitVec.ofNat_toNat, BitVec.setWidth_eq] at hbyte
    exact hbyte

/-- Every request is answered with `echo`. -/
theorem mmDispatch_echo (eax : BitVec 32) (hreq : ExecRequest img k src path)
    (hstart : k₀.mmStart = k.mmStart) (hdisk : DiskLayout sb r echoName k echo)
    (hs : LookupSound r echoName k.memoryUsed) (hecho : Executable sb r k.mem echoName g)
    (hload : Loadable k.mem (fileAddr sb g) k.procTable src k.mmStart)
    (hflat : NativeFlat k.procTable) :
    ∃ k', mmDispatch (romfsImage img sb echo k₀) eax k = .ok (k', .reply (proc2pid src) eax) ∧
      (k'.procTable src).regs.eip = eEntry k.mem (fileAddr sb g) ∧
      LoadedFrom k.mem (fileAddr sb g) k.procTable src k'.mem 0 := by
  obtain ⟨k', hrun, heip, hloaded⟩ := doExecl_echo hreq hstart hdisk hs hecho hload hflat
  refine ⟨k', ?_, heip, hloaded⟩
  have htype : mmType (romfsImage img sb echo k₀) k = EXEC := hreq.type
  have hsrc : mmSource (romfsImage img sb echo k₀) k = proc2pid src := hreq.source
  unfold mmDispatch
  dsimp only
  rw [htype, if_neg (by decide), if_neg (by decide), if_neg (by decide), if_pos rfl, hrun, hsrc]
  rfl

/-- A request for `echo` is answered as it should be. A request for anything
    else runs `echo` too, so that the answer is right only if the file that was
    asked for has the same entry point, or if there is none and the caller was
    there already. -/
theorem exec_echo (eax : BitVec 32) (hreq : ExecRequest img k src path)
    (hstart : k₀.mmStart = k.mmStart) (hdisk : DiskLayout sb r echoName k echo)
    (hs : LookupSound r echoName k.memoryUsed) (hecho : Executable sb r k.mem echoName g)
    (hload : Loadable k.mem (fileAddr sb g) k.procTable src k.mmStart)
    (hflat : NativeFlat k.procTable) :
    (path = echoName → ExecCorrect (romfsImage img sb echo k₀) eax k sb r path src) ∧
      (ExecCorrect (romfsImage img sb echo k₀) eax k sb r path src → path = echoName ∨
        (∃ h, Executable sb r k.mem path h ∧
          eEntry k.mem (fileAddr sb h) = eEntry k.mem (fileAddr sb g)) ∨
        ((¬ ∃ h, Executable sb r k.mem path h) ∧
          (k.procTable src).regs.eip = eEntry k.mem (fileAddr sb g))) := by
  obtain ⟨k', hdispatch, heip, hloaded⟩ :=
    mmDispatch_echo eax hreq hstart hdisk hs hecho hload hflat
  constructor
  · intro hpath
    subst hpath
    refine ⟨k', eax, hdispatch, fun h hh => ?_, fun hno => absurd ⟨g, hecho⟩ hno⟩
    obtain rfl := Option.some.inj (hecho.lookup.symm.trans hh.lookup)
    exact ⟨heip, hloaded⟩
  · intro hc
    obtain ⟨k'', retval, hrun', hheld, habsent⟩ := hc
    rw [hdispatch] at hrun'
    obtain ⟨rfl, _⟩ := Prod.mk.inj (Except.ok.inj hrun')
    right
    by_cases hex : ∃ h, Executable sb r k.mem path h
    · obtain ⟨h, hh⟩ := hex
      left
      exact ⟨h, hh, (hheld h hh).1.symm.trans heip⟩
    · right
      refine ⟨hex, ?_⟩
      rw [← (habsent hex).2.1]
      exact heip

end

/-! ### The sample image -/

/-- INIT has asked for `path`, which stands behind the name `echo`. -/
def execMem (path : List Byte) : Mem :=
  let mem := romMem sampleRomBytes (echoName ++ 0 :: path)
  let mem := writeWord mem (sampleMmImage.mmMsg + offSource) 3
  let mem := writeWord mem (sampleMmImage.mmMsg + offType) EXEC
  let mem := writeWord mem (sampleMmImage.mmMsg + offM3i2) (BitVec.ofNat 32 path.length)
  writeWord mem (sampleMmImage.mmMsg + offM3p1) 0x300005

def execMachine (path : List Byte) : Machine :=
  { bootMachine sampleImage with mem := execMem path }

/-- `cat`, which the image does not hold. -/
def catName : List Byte := [0x63, 0x61, 0x74]

/-- The header of `echo`. -/
def echoHeader : RomHeader := ⟨64, echoName, 88⟩

theorem echo_sound : LookupSound sampleRom echoName 0 :=
  ⟨by decide, sampleRom_displayable, fun _ => by decide,
    fun hno => absurd ⟨echoHeader, by decide, rfl⟩ hno⟩

section

variable {path : List Byte}

/-- `echo` has one segment. -/
theorem echo_ptLoad (hnum : ePhnum (execMem path) (fileAddr sampleSb echoHeader) = 1) {i : ℕ}
    (h : PtLoad (execMem path) (fileAddr sampleSb echoHeader) i) : i = 0 := by
  have hlt := h.1
  omega

theorem exec_disk (hstored : sampleRom.Stored (execMem path) 0x200000 192)
    (hname : IsStr (execMem path) 0x300000 echoName) :
    DiskLayout sampleSb sampleRom echoName (execMachine path) 0x300000 := by
  have hstart : (execMachine path).mmStart = 0x1000000 := rfl
  refine ⟨?_, ?_, hstored, hname, ?_, ?_⟩
  · rw [hstart]
    decide
  · rw [hstart]
    decide
  · rw [hstart]
    decide +kernel
  · rw [hstart]
    decide

/-- The room that the segment of `echo` needs. -/
theorem echo_loadable (hnum : ePhnum (execMem path) (fileAddr sampleSb echoHeader) = 1)
    (hout : ∀ j < pFilesz (execMem path) (fileAddr sampleSb echoHeader) 0,
      ¬ InPool 0x1000000 (segmentAddr (execMem path) (fileAddr sampleSb echoHeader)
        (initProc sampleImage) INIT 0 + BitVec.ofNat 32 j)) :
    Loadable (execMem path) (fileAddr sampleSb echoHeader) (execMachine path).procTable INIT
      (execMachine path).mmStart := by
  refine ⟨fun i hi => ?_, fun i i' hne hi hi' => ?_⟩
  · obtain rfl := echo_ptLoad hnum hi
    exact hout
  · exact absurd ((echo_ptLoad hnum hi).trans (echo_ptLoad hnum hi').symm) hne

end

theorem exec_echo_init :
    ExecCorrect (romfsImage sampleMmImage sampleSb 0x300000 (bootMachine sampleImage)) 0
      (execMachine echoName) sampleSb sampleRom echoName INIT := by
  have hnum : ePhnum (execMem echoName) (fileAddr sampleSb echoHeader) = 1 := by decide
  have hecho : Executable sampleSb sampleRom (execMem echoName) echoName echoHeader := by
    refine ⟨rfl, by decide, by decide, by decide, by decide, by decide, by decide, by decide,
      by decide, fun i hi => ?_⟩
    obtain rfl := echo_ptLoad hnum hi
    decide
  exact (exec_echo 0 ⟨by decide, by decide, by decide, by decide, by decide⟩ rfl
    (exec_disk (by decide) (by decide)) echo_sound hecho
    (echo_loadable hnum (by decide)) (initProc_quiescent sampleImage).flat).1 rfl

/-- INIT asks for `cat`: there is no such file, and `echo` is run. -/
theorem wrong_file_run :
    ExecRequest sampleMmImage (execMachine catName) INIT catName ∧
      sampleRom.Stored (execMachine catName).mem sampleSb.device.startPos
        sampleSb.device.storageSize.toNat ∧
      ¬ ExecCorrect (romfsImage sampleMmImage sampleSb 0x300000 (bootMachine sampleImage)) 0
        (execMachine catName) sampleSb sampleRom catName INIT := by
  have hnum : ePhnum (execMem catName) (fileAddr sampleSb echoHeader) = 1 := by decide
  have hecho : Executable sampleSb sampleRom (execMem catName) echoName echoHeader := by
    refine ⟨rfl, by decide, by decide, by decide, by decide, by decide, by decide, by decide,
      by decide, fun i hi => ?_⟩
    obtain rfl := echo_ptLoad hnum hi
    decide
  have hreq : ExecRequest sampleMmImage (execMachine catName) INIT catName :=
    ⟨by decide, by decide, by decide, by decide, by decide⟩
  have hdisk : DiskLayout sampleSb sampleRom echoName (execMachine catName) 0x300000 :=
    exec_disk (by decide) (by decide)
  refine ⟨hreq, hdisk.stored, fun hc => ?_⟩
  have hstart : (bootMachine sampleImage).mmStart = (execMachine catName).mmStart := rfl
  obtain ⟨k', hrun, heip, _⟩ := mmDispatch_echo 0 hreq hstart hdisk echo_sound hecho
    (echo_loadable hnum (by decide)) (initProc_quiescent sampleImage).flat
  obtain ⟨k'', retval, hrun', _, habsent⟩ := hc
  rw [hrun] at hrun'
  obtain ⟨rfl, _⟩ := Prod.mk.inj (Except.ok.inj hrun')
  have hno : ¬ ∃ h, Executable sampleSb sampleRom (execMachine catName).mem catName h := by
    intro hex
    obtain ⟨h, hh⟩ := hex
    have hnone : sampleRom.lookup catName = none := rfl
    exact absurd (hnone.symm.trans hh.lookup) (by nofun)
  rw [(habsent hno).2.1] at heip
  exact absurd heip (by decide)

end SimpleOs
