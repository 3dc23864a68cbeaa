import SimpleOs.Io.Stdio
import SimpleOs.Lib.Scan
import SimpleOs.Loader.Chain

/-!
# The search of the root directory

`start_c` (kernel_loader/kernel_loader.c:670-880) reads the boot sector, looks for
`P_KERNELELF` in the root directory and loads what it has found. `LOAD_FS` is not defined, so
the search ends at the first name that `s_strncmp` takes for this one.

`s_strncmp` moves on only while neither of the two characters is 0 (kernel_loader.c:417-418),
so a name that ends in a 0 byte is compared up to there. When the search comes to nothing,
`load_file_to_ram` is called all the same, with the cluster -1.

* `searchRoot_found`: what is selected, and which sectors are read.
* `startC_search_iff`: when this is what it should be.
* `empty_directory`: an image without the kernel.
-/

namespace SimpleOs

open ByteMem Fat12 Scan

/-! ## Reading into the buffer of the search -/

/-- The registers of a read but the address of the buffer. -/
structure DiskRead where
  sectorNo : Byte
  trackNo : Byte
  headNo : Byte
  diskNo : Byte
  blocks : Byte
  deriving DecidableEq

/-- The BIOS does the same for every buffer. -/
abbrev Bios := DiskRead → (ℕ → Byte) → ℕ → Byte

def SectorRead.diskRead (r : SectorRead) : DiskRead :=
  ⟨r.sectorNo, r.trackNo, r.headNo, r.diskNo, r.blocks⟩

/-- The reads into the buffers of `load_file_to_ram`. -/
def Bios.int13 (bios : Bios) : Int13 := fun r => bios r.diskRead

/-- The sectors that a read asks for. -/
def DiskRead.sectors (r : DiskRead) : List ℕ :=
  (List.range r.blocks.toNat).map
    (Chs.lba 18 2 ⟨r.trackNo.toNat, r.headNo.toNat, r.sectorNo.toNat⟩ + ·)

/-- The read of the sector `i` (kernel_loader.c:772-776). -/
def rootRead (i : ℕ) : DiskRead where
  sectorNo := BitVec.ofNat 8 (i % 18 + 1)
  trackNo := BitVec.ofNat 8 ((i / 18) >>> 1)
  headNo := BitVec.ofNat 8 ((i / 18) &&& 1)
  diskNo := 0
  blocks := 1

/-! ## The search -/

/-- `kernel_name` (kernel_loader.c:65), with the NUL behind it. -/
def kernelName (i : ℕ) : Byte := (strBytes "P_KERNELELF").getD i 0

/-- `s_strncmp(s1, s2, n)` (kernel_loader.c:411-429), from the characters `i` and `j` on. -/
def sStrncmp (s1 s2 : ℕ → Byte) : ℕ → ℕ → ℕ → ℤ
  | 0, _, _ => 0
  | n + 1, i, j =>
    if s1 i ≠ 0 ∧ s2 j ≠ 0 then
      if s1 i ≠ s2 j then -1 else sStrncmp s1 s2 n (i + 1) (j + 1)
    else sStrncmp s1 s2 n i j

/-- The variables of the search: the buffer at `IMAGE_LMA`, `f_c`, `file_size` and
    `first_kernel_cluster`, and the reads so far. -/
structure Search where
  buff : ℕ → Byte
  fC : BitVec 16
  fileSize : BitVec 32
  firstKernelCluster : ℤ
  reads : List DiskRead

/-- The body of the loop over the entries of a sector (kernel_loader.c:784-837); `true` for
    `goto search_end`. -/
def examineEntry (j : ℕ) (s : Search) : Bool × Search :=
  let s := { s with
    fC := half s.buff (0x1b + j * 32) (0x1a + j * 32)
    fileSize := s.buff (0x1f + j * 32) ++ s.buff (0x1e + j * 32) ++ s.buff (0x1d + j * 32) ++
      s.buff (0x1c + j * 32) }
  let filename (i : ℕ) : Byte := if i < 11 then s.buff (j * 32 + i) else 0
  if filename 0 = 0xe5 then (false, s)
  else if filename 0 = 0 then (true, s)
  else if s.buff (0x0b + j * 32) >>> 3 &&& 1 = 1 then (false, s)
  else if sStrncmp filename kernelName 11 0 0 = 0 then
    (true, { s with firstKernelCluster := s.fC.toNat })
  else (false, s)

/-- The body of the loop over the sectors (kernel_loader.c:769-858). -/
def examineSector (bios : Bios) (i : ℕ) (s : Search) : Bool × Search :=
  let s := { s with buff := bios (rootRead i) s.buff, reads := s.reads ++ [rootRead i] }
  scan examineEntry (512 / 32) 0 s

/-- The search (kernel_loader.c:758-858). The bound of the loop is inclusive. -/
def searchRoot (bios : Bios) (bpb : Bpb) (buff : ℕ → Byte) : Search :=
  (scan (examineSector bios) (bpb.rootDirOccupySector.toNat + 1) bpb.rootDirStartSector.toNat
    { buff := buff, fC := 0, fileSize := 0, firstKernelCluster := -1, reads := [] }).2

/-- `start_c` up to `search_end` (kernel_loader.c:714-858): the boot sector, the layout and the
    search. -/
def startSearch (bios : Bios) (bpb : Bpb) (buff : ℕ → Byte) : Bpb × Search :=
  let buff := bios ⟨1, 0, 0, 0, 1⟩ buff
  let bpb := startBpb buff bpb
  (bpb, searchRoot bios bpb buff)

/-- `start_c` up to the return of `load_file_to_ram` (kernel_loader.c:670-880). -/
def startC (bios : Bios) (bpb : Bpb) (buff : ℕ → Byte) (fuel : ℕ) (s : Loader) : Option Loader :=
  let (bpb, search) := startSearch bios bpb buff
  loadFileToRam bios.int13 bpb fuel search.firstKernelCluster
    (if 512 < search.fileSize.toNat then 1 else 0) s

/-! ## What the search is for -/

/-- An image with sectors of 512 bytes that has its boot sector and its root directory, of at
    most 256 cylinders. -/
structure FloppyImage (v : Volume) (bpb : Bpb) : Prop where
  boot : DescribesRoot (initBpb (v.sector 0) bpb) v
  bytesPerSector : v.bytesPerSector = 512
  sectors : v.sectors ≤ 256 * (2 * 18)
  bootSector : 0 < v.sectors
  rootDir : v.dataStart ≤ v.sectors

/-- Nothing has been read as part of a file, and nothing copied. -/
def LoadsNothing (s s' : Loader) : Prop := s'.dataReads = s.dataReads ∧ s'.mem = s.mem

/-- `start_c` selects the fields of the entry of the kernel, examines the root directory only,
    and loads nothing when there is no such entry. -/
structure SearchRight (bios : Bios) (v : Volume) (bpb : Bpb) (buff : ℕ → Byte) (s : Loader) :
    Prop where
  selects : ∀ k, v.FirstFile kernelName k →
    (startSearch bios bpb buff).2.firstKernelCluster = (v.firstCluster k).toNat ∧
      (startSearch bios bpb buff).2.fileSize = v.fileSize k
  examines : ∀ r ∈ (startSearch bios bpb buff).2.reads, ∀ n ∈ r.sectors,
    v.rootStart ≤ n ∧ n < v.dataStart
  loadsNothing : (∀ k, ¬ v.FirstFile kernelName k) →
    ∃ fuel s', startC bios bpb buff fuel s = some s' ∧ LoadsNothing s s'

/-! ## Names -/

/-- The two strings agree up to a zero byte, or in `n` characters. -/
def AgreesUpToZero (s1 s2 : ℕ → Byte) (n : ℕ) : Prop :=
  ∃ k ≤ n, (∀ i < k, s1 i = s2 i) ∧ (k = n ∨ s1 k = 0 ∨ s2 k = 0)

section Names

variable {s1 s2 : ℕ → Byte} {n : ℕ}

theorem agreesUpToZero_of_zero (h : ¬ (s1 0 ≠ 0 ∧ s2 0 ≠ 0)) : AgreesUpToZero s1 s2 n := by
  refine ⟨0, Nat.zero_le n, fun i hi => absurd hi (Nat.not_lt_zero i), .inr ?_⟩
  by_cases h1 : s1 0 = 0
  · exact .inl h1
  · exact .inr (by_contra fun h2 => h ⟨h1, h2⟩)

theorem agreesUpToZero_succ (h : s1 0 ≠ 0 ∧ s2 0 ≠ 0) :
    AgreesUpToZero s1 s2 (n + 1) ↔
      s1 0 = s2 0 ∧ AgreesUpToZero (fun i => s1 (i + 1)) (fun i => s2 (i + 1)) n := by
  constructor
  · intro ⟨k, hk, hsame, hend⟩
    cases k with
    | zero =>
      rcases hend with hend | hend | hend
      · omega
      · exact absurd hend h.1
      · exact absurd hend h.2
    | succ k =>
      refine ⟨hsame 0 (by omega), k, by omega, fun i hi => hsame (i + 1) (by omega), ?_⟩
      rcases hend with hend | hend
      · exact .inl (by omega)
      · exact .inr hend
  · intro ⟨h0, k, hk, hsame, hend⟩
    refine ⟨k + 1, by omega, fun i hi => ?_, ?_⟩
    · cases i with
      | zero => exact h0
      | succ i => exact hsame i (by omega)
    · rcases hend with hend | hend
      · exact .inl (by omega)
      · exact .inr hend

/-- Only the first `n` characters are looked at. -/
theorem AgreesUpToZero.congr {s1' : ℕ → Byte} (h : AgreesUpToZero s1 s2 n)
    (hsame : ∀ i < n, s1 i = s1' i) : AgreesUpToZero s1' s2 n := by
  obtain ⟨k, hk, heq, hend⟩ := h
  refine ⟨k, hk, fun i hi => by rw [← hsame i (by omega), heq i hi], ?_⟩
  by_cases hkn : k = n
  · exact .inl hkn
  · rw [← hsame k (by omega)]
    exact hend

/-- At a zero byte the comparison stays where it is. -/
theorem sStrncmp_zero {i j : ℕ} (h : ¬ (s1 i ≠ 0 ∧ s2 j ≠ 0)) (n : ℕ) :
    sStrncmp s1 s2 n i j = 0 := by
  induction n with
  | zero => rfl
  | succ n ih =>
    rw [sStrncmp, if_neg h]
    exact ih

theorem sStrncmp_from (n p : ℕ) :
    sStrncmp s1 s2 n p p = 0 ↔
      AgreesUpToZero (fun i => s1 (p + i)) (fun i => s2 (p + i)) n := by
  induction n generalizing p with
  | zero =>
    exact ⟨fun _ => ⟨0, Nat.le_refl 0, fun i hi => absurd hi (Nat.not_lt_zero i), .inl rfl⟩,
      fun _ => rfl⟩
  | succ n ih =>
    by_cases hgo : s1 p ≠ 0 ∧ s2 p ≠ 0
    · have hshift : ∀ s : ℕ → Byte, (fun i => s (p + 1 + i)) = fun i => s (p + (i + 1)) := by
        intro s
        funext i
        rw [Nat.add_assoc, Nat.add_comm 1 i]
      rw [sStrncmp, if_pos hgo, agreesUpToZero_succ hgo, Nat.add_zero]
      by_cases heq : s1 p = s2 p
      · rw [if_neg (not_not_intro heq), ih, hshift s1, hshift s2]
        exact ⟨fun h => ⟨heq, h⟩, fun h => h.2⟩
      · rw [if_pos heq]
        exact ⟨fun h => absurd h (by omega), fun h => absurd h.1 heq⟩
    · exact ⟨fun _ => agreesUpToZero_of_zero hgo, fun _ => sStrncmp_zero hgo (n + 1)⟩

theorem sStrncmp_eq_zero_iff : sStrncmp s1 s2 n 0 0 = 0 ↔ AgreesUpToZero s1 s2 n := by
  rw [sStrncmp_from]
  simp only [Nat.zero_add]

end Names

/-- What `start_c` takes for the entry of the file. -/
def LooksLike (v : Volume) (name : ℕ → Byte) (k : ℕ) : Prop :=
  ¬ v.IsDeleted k ∧ ¬ v.IsLabel k ∧ AgreesUpToZero (v.dirByte k) name 11

theorem looksLike_of_isFile {v : Volume} {name : ℕ → Byte} {k : ℕ} (h : v.IsFile name k) :
    LooksLike v name k :=
  ⟨h.1, h.2.1, 11, Nat.le_refl 11, h.2.2, .inl rfl⟩

/-! ## One entry -/

section Entries

variable {v : Volume} {j k q : ℕ} {s : Search}

@[simp] theorem examineEntry_buff (j : ℕ) (s : Search) : (examineEntry j s).2.buff = s.buff := by
  unfold examineEntry
  dsimp only
  split_ifs <;> rfl

@[simp] theorem examineEntry_reads (j : ℕ) (s : Search) :
    (examineEntry j s).2.reads = s.reads := by
  unfold examineEntry
  dsimp only
  split_ifs <;> rfl

/-- The entry `j` of the buffer is the entry `k` of the directory. -/
def HoldsEntry (v : Volume) (k : ℕ) (buff : ℕ → Byte) (j : ℕ) : Prop :=
  ∀ i < 32, buff (j * 32 + i) = v.dirByte k i

theorem HoldsEntry.add_comm (h : HoldsEntry v k s.buff j) {i : ℕ} (hi : i < 32) :
    s.buff (i + j * 32) = v.dirByte k i := by
  rw [Nat.add_comm]
  exact h i hi

theorem HoldsEntry.isLabel_iff (h : HoldsEntry v k s.buff j) :
    s.buff (0x0b + j * 32) >>> 3 &&& 1 = 1 ↔ v.IsLabel k := by
  rw [h.add_comm (by omega)]
  unfold Volume.IsLabel
  generalize v.dirByte k 0x0b = x
  revert x
  decide

/-- The name that is compared. -/
theorem HoldsEntry.sStrncmp_iff (h : HoldsEntry v k s.buff j) (name : ℕ → Byte) :
    sStrncmp (fun i => if i < 11 then s.buff (j * 32 + i) else 0) name 11 0 0 = 0 ↔
      AgreesUpToZero (v.dirByte k) name 11 := by
  have hsame : ∀ i < 11, (if i < 11 then s.buff (j * 32 + i) else 0) = v.dirByte k i := by
    intro i hi
    rw [if_pos hi, h i (by omega)]
  rw [sStrncmp_eq_zero_iff]
  exact ⟨fun ha => ha.congr hsame, fun ha => ha.congr fun i hi => (hsame i hi).symm⟩

theorem examineEntry_pass (h : HoldsEntry v k s.buff j) (hend : ¬ v.IsEnd k)
    (hlike : ¬ LooksLike v kernelName k) : (examineEntry j s).1 = false := by
  have hfirst : s.buff (j * 32 + 0) = v.dirByte k 0 := h 0 (by omega)
  have hend0 : ¬ v.dirByte k 0 = 0 := hend
  unfold examineEntry
  simp only [Nat.zero_lt_succ, if_true, hfirst]
  by_cases hdel : v.dirByte k 0 = 0xe5
  · rw [if_pos hdel]
  · rw [if_neg hdel, if_neg hend0]
    by_cases hlab : s.buff (0x0b + j * 32) >>> 3 &&& 1 = 1
    · rw [if_pos hlab]
    · have hname : ¬ AgreesUpToZero (v.dirByte k) kernelName 11 :=
        fun ha => hlike ⟨hdel, fun hl => hlab (h.isLabel_iff.mpr hl), ha⟩
      rw [if_neg hlab, if_neg fun hc => hname ((h.sStrncmp_iff kernelName).mp hc)]

theorem examineEntry_found (h : HoldsEntry v k s.buff j) (hend : ¬ v.IsEnd k)
    (hlike : LooksLike v kernelName k) :
    (examineEntry j s).1 = true ∧
      (examineEntry j s).2.firstKernelCluster = (v.firstCluster k).toNat ∧
      (examineEntry j s).2.fileSize = v.fileSize k := by
  obtain ⟨hdel, hlab, hname⟩ := hlike
  have hfirst : s.buff (j * 32 + 0) = v.dirByte k 0 := h 0 (by omega)
  have hend0 : ¬ v.dirByte k 0 = 0 := hend
  have hdel0 : ¬ v.dirByte k 0 = 0xe5 := hdel
  unfold examineEntry
  simp only [Nat.zero_lt_succ, if_true, hfirst]
  rw [if_neg hdel0, if_neg hend0, if_neg fun hc => hlab (h.isLabel_iff.mp hc),
    if_pos ((h.sStrncmp_iff kernelName).mpr hname)]
  unfold half Volume.firstCluster Volume.fileSize
  rw [h.add_comm (by omega), h.add_comm (by omega), h.add_comm (by omega), h.add_comm (by omega),
    h.add_comm (by omega), h.add_comm (by omega)]
  exact ⟨rfl, rfl, rfl⟩

end Entries

/-! ## One sector -/

section Sectors

variable {v : Volume} {bpb : Bpb} {bios : Bios} {n q : ℕ} {s : Search}

theorem diskRead_dataRead (n : ℕ) : (dataRead n).diskRead = rootRead n := by
  have hmod : (n : ℤ).tmod 18 + 1 = (n % 18 + 1 : ℕ) := rfl
  have hdiv : (n : ℤ).tdiv 18 >>> (1 : ℕ) = ((n / 18) >>> 1 : ℕ) := rfl
  have hhead : (n : ℤ).tdiv 18 % 2 = (n / 18 % 2 : ℕ) := rfl
  unfold dataRead SectorRead.diskRead rootRead
  dsimp only
  rw [hmod, hdiv, hhead, BitVec.ofInt_natCast, BitVec.ofInt_natCast, BitVec.ofInt_natCast,
    Nat.and_one_is_mod]

theorem sectors_rootRead (hn : n < 256 * (2 * 18)) : (rootRead n).sectors = [n] := by
  rw [← diskRead_dataRead]
  exact sectors_dataRead hn

theorem Delivers.rootRead (hbios : Delivers bios.int13 v) (hn : n < 256 * (2 * 18))
    (hv : n < v.sectors) (buff : ℕ → Byte) {x : ℕ} (hx : x < 512) :
    bios (rootRead n) buff x = v.sector n x := by
  rw [← diskRead_dataRead]
  exact hbios.dataRead hn hv buff hx

/-- The buffer holds the sector `q` of the root directory. -/
def HoldsSector (v : Volume) (q : ℕ) (buff : ℕ → Byte) : Prop :=
  ∀ x < 512, buff x = v.sector (v.rootStart + q) x

theorem HoldsSector.entry {buff : ℕ → Byte} {j : ℕ} (hb : HoldsSector v q buff)
    (hbytes : v.bytesPerSector = 512) (hj : j < 16) : HoldsEntry v (q * 16 + j) buff j := by
  intro i hi
  have hdiv : ((q * 16 + j) * 32 + i) / 512 = q := by omega
  have hmod : ((q * 16 + j) * 32 + i) % 512 = j * 32 + i := by omega
  unfold Volume.dirByte
  rw [hbytes, hdiv, hmod]
  exact hb _ (by omega)

/-- Only the root directory has been read. -/
def InRoot (v : Volume) (reads : List DiskRead) : Prop :=
  ∀ r ∈ reads, ∀ n ∈ r.sectors, v.rootStart ≤ n ∧ n < v.dataStart

/-- The search goes past the entry. -/
def Passed (v : Volume) (k : ℕ) : Prop := ¬ v.IsEnd k ∧ ¬ LooksLike v kernelName k

/-- What holds between two entries of a sector. -/
def InSector (v : Volume) (q : ℕ) (_ : ℕ) (s : Search) : Prop :=
  HoldsSector v q s.buff ∧ InRoot v s.reads

theorem passes_entries (hbytes : v.bytesPerSector = 512) {k : ℕ} (hk : k ≤ 16)
    (hpass : ∀ j < k, Passed v (q * 16 + j)) : Passes examineEntry (InSector v q) 0 k := by
  intro j s _ hj ⟨hb, hr⟩
  obtain ⟨hend, hlike⟩ := hpass j hj
  refine ⟨examineEntry_pass (hb.entry hbytes (by omega)) hend hlike, ?_, ?_⟩
  · rw [examineEntry_buff]
    exact hb
  · rw [examineEntry_reads]
    exact hr

/-- The sector has been read. -/
theorem inSector_read (hbios : Delivers bios.int13 v) (h : FloppyImage v bpb)
    (hq : q < v.rootSectors) (hs : InRoot v s.reads) :
    InSector v q 0 { s with
      buff := bios (rootRead (v.rootStart + q)) s.buff
      reads := s.reads ++ [rootRead (v.rootStart + q)] } := by
  have hdir := h.rootDir
  have hsectors := h.sectors
  have hstart : v.dataStart = v.rootStart + v.rootSectors := rfl
  refine ⟨fun x hx => hbios.rootRead (by omega) (by omega) s.buff hx, fun r hr n hn => ?_⟩
  rcases List.mem_append.mp hr with hr | hr
  · exact hs r hr n hn
  · rw [List.mem_singleton.mp hr, sectors_rootRead (by omega), List.mem_singleton] at hn
    omega

theorem examineSector_pass (hbios : Delivers bios.int13 v) (h : FloppyImage v bpb)
    (hq : q < v.rootSectors) (hpass : ∀ j < 16, Passed v (q * 16 + j)) (hs : InRoot v s.reads) :
    (examineSector bios (v.rootStart + q) s).1 = false ∧
      InRoot v (examineSector bios (v.rootStart + q) s).2.reads := by
  have hscan := scan_pass (n := 16) (passes_entries h.bytesPerSector (Nat.le_refl 16) hpass)
    (inSector_read hbios h hq hs)
  exact ⟨hscan.1, hscan.2.2⟩

theorem examineSector_found (hbios : Delivers bios.int13 v) (h : FloppyImage v bpb)
    (hq : q < v.rootSectors) {j : ℕ} (hj : j < 16) (hpass : ∀ i < j, Passed v (q * 16 + i))
    (hend : ¬ v.IsEnd (q * 16 + j)) (hlike : LooksLike v kernelName (q * 16 + j))
    (hs : InRoot v s.reads) :
    (examineSector bios (v.rootStart + q) s).1 = true ∧
      (examineSector bios (v.rootStart + q) s).2.firstKernelCluster =
        (v.firstCluster (q * 16 + j)).toNat ∧
      (examineSector bios (v.rootStart + q) s).2.fileSize = v.fileSize (q * 16 + j) ∧
      InRoot v (examineSector bios (v.rootStart + q) s).2.reads := by
  have hbytes := h.bytesPerSector
  have hfound : ∀ s', InSector v q j s' → (examineEntry j s').1 = true :=
    fun s' hs' => (examineEntry_found (hs'.1.entry hbytes hj) hend hlike).1
  obtain ⟨s', ⟨hb, hr⟩, hscan⟩ := scan_stop (n := 16)
    (passes_entries hbytes (by omega) hpass) hfound (Nat.zero_le j) (by omega)
    (inSector_read hbios h hq hs)
  obtain ⟨hstop, hcluster, hsize⟩ := examineEntry_found (hb.entry hbytes hj) hend hlike
  have heq : examineSector bios (v.rootStart + q) s = examineEntry j s' := hscan
  rw [heq, examineEntry_reads]
  exact ⟨hstop, hcluster, hsize, hr⟩

end Sectors

/-! ## The whole search -/

section Whole

variable {v : Volume} {bpb : Bpb} {bios : Bios} {k : ℕ}

/-- The layout, as the boot sector gives it. -/
theorem startSearch_eq (hbios : Delivers bios.int13 v) (h : FloppyImage v bpb)
    (buff : ℕ → Byte) :
    startSearch bios bpb buff =
      (startBpb (v.sector 0) bpb,
        searchRoot bios (startBpb (v.sector 0) bpb) (bios (rootRead 0) buff)) := by
  have hboot := h.bootSector
  have hsector : ∀ x < 512, bios (rootRead 0) buff x = v.sector 0 x :=
    fun x hx => hbios.rootRead (by omega) hboot buff hx
  have hbpb : startBpb (bios (rootRead 0) buff) bpb = startBpb (v.sector 0) bpb :=
    startBpb_congr hsector
  unfold startSearch
  change (startBpb (bios (rootRead 0) buff) bpb,
    searchRoot bios (startBpb (bios (rootRead 0) buff) bpb) (bios (rootRead 0) buff)) = _
  rw [hbpb]

/-- The search ends at the first entry that it takes for the one of the kernel, and has read
    no sector behind the one with this entry. -/
theorem searchRoot_found (hbios : Delivers bios.int13 v) (h : FloppyImage v bpb)
    (hk : k < v.rootEntries) (hpass : ∀ m < k, Passed v m) (hend : ¬ v.IsEnd k)
    (hlike : LooksLike v kernelName k) (buff : ℕ → Byte) :
    (searchRoot bios (startBpb (v.sector 0) bpb) buff).firstKernelCluster =
        (v.firstCluster k).toNat ∧
      (searchRoot bios (startBpb (v.sector 0) bpb) buff).fileSize = v.fileSize k ∧
      InRoot v (searchRoot bios (startBpb (v.sector 0) bpb) buff).reads := by
  have hq : k / 16 < v.rootSectors := by
    unfold Volume.rootSectors
    rw [h.bytesPerSector]
    omega
  have hdir := h.rootDir
  have hmax := h.sectors
  have hstart : v.dataStart = v.rootStart + v.rootSectors := rfl
  have hsplit : k / 16 * 16 + k % 16 = k := by omega
  have hj : k % 16 < 16 := by omega
  -- the sectors before the one with the entry
  have hsectors : Passes (examineSector bios) (fun _ s => InRoot v s.reads) v.rootStart
      (v.rootStart + k / 16) := by
    intro i s hi hlt hs
    obtain ⟨q, rfl⟩ := Nat.exists_eq_add_of_le hi
    exact examineSector_pass hbios h (by omega) (fun j _ => hpass _ (by omega)) hs
  have hlast : ∀ s, InRoot v s.reads →
      (examineSector bios (v.rootStart + k / 16) s).1 = true ∧
        (examineSector bios (v.rootStart + k / 16) s).2.firstKernelCluster =
          (v.firstCluster k).toNat ∧
        (examineSector bios (v.rootStart + k / 16) s).2.fileSize = v.fileSize k ∧
        InRoot v (examineSector bios (v.rootStart + k / 16) s).2.reads := by
    intro s hs
    have hfound := examineSector_found hbios h hq hj (fun i _ => hpass _ (by omega))
      (by rwa [hsplit]) (by rwa [hsplit]) hs
    rw [hsplit] at hfound
    exact hfound
  obtain ⟨s', hs', hscan⟩ := scan_stop (n := v.rootSectors + 1) hsectors
    (fun s hs => (hlast s hs).1) (Nat.le_add_right _ _) (by omega)
    (s := ⟨buff, 0, 0, -1, []⟩) fun r hr => absurd hr List.not_mem_nil
  unfold searchRoot
  rw [h.boot.rootDirOccupySector h.bytesPerSector, h.boot.rootDirStartSector (by omega), hscan]
  exact (hlast s' hs').2

/-- `load_file_to_ram` is called also when nothing has been found. -/
theorem startC_loads {buff : ℕ → Byte} {fuel : ℕ} {s s' : Loader}
    (hload : startC bios bpb buff fuel s = some s') : ¬ LoadsNothing s s' := by
  have hlt := loadFileToRam_reads hload
  intro hnothing
  exact absurd hnothing.1 (by omega)

/-- For every image and whatever is in the root directory: the search is right if and only if
    there is an entry of the kernel and the first entry that agrees with its name up to a zero
    byte has the same first cluster and size. -/
theorem startC_search_iff (hbios : Delivers bios.int13 v) (h : FloppyImage v bpb)
    (buff : ℕ → Byte) (s : Loader) :
    SearchRight bios v bpb buff s ↔
      ∃ k, v.FirstFile kernelName k ∧
        ∀ m ≤ k, LooksLike v kernelName m → (∀ l < m, ¬ LooksLike v kernelName l) →
          v.firstCluster m = v.firstCluster k ∧ v.fileSize m = v.fileSize k := by
  -- what the search comes to, when there is an entry of the kernel
  have hfound : ∀ k m, v.FirstFile kernelName k → m ≤ k → LooksLike v kernelName m →
      (∀ l < m, ¬ LooksLike v kernelName l) →
      (startSearch bios bpb buff).2.firstKernelCluster = (v.firstCluster m).toNat ∧
        (startSearch bios bpb buff).2.fileSize = v.fileSize m ∧
        InRoot v (startSearch bios bpb buff).2.reads := by
    intro k m hk hm hlike hfirst
    have hlt := hk.lt
    rw [startSearch_eq hbios h]
    exact searchRoot_found hbios h (by omega)
      (fun l hl => ⟨hk.notEnd l (by omega), hfirst l hl⟩) (hk.notEnd m hm) hlike _
  constructor
  · intro hright
    by_contra hno
    by_cases hex : ∃ k, v.FirstFile kernelName k
    · obtain ⟨k, hk⟩ := hex
      refine hno ⟨k, hk, fun m hm hlike hfirst => ?_⟩
      obtain ⟨hcluster, hsize, _⟩ := hfound k m hk hm hlike hfirst
      obtain ⟨hcluster', hsize'⟩ := hright.selects k hk
      refine ⟨BitVec.eq_of_toNat_eq ?_, hsize.symm.trans hsize'⟩
      have heq := hcluster.symm.trans hcluster'
      omega
    · obtain ⟨fuel, s', hload, hnothing⟩ :=
        hright.loadsNothing fun k hk => hex ⟨k, hk⟩
      exact startC_loads hload hnothing
  · intro ⟨k, hk, hsame⟩
    obtain ⟨m, hm, hlike, hfirst⟩ := exists_first (looksLike_of_isFile hk.file)
    obtain ⟨hcluster, hsize, hreads⟩ := hfound k m hk hm hlike hfirst
    obtain ⟨hcluster', hsize'⟩ := hsame m hm hlike hfirst
    refine ⟨fun k' hk' => ?_, hreads, fun hno => absurd hk (hno k)⟩
    have hone : k' = k := hk'.unique hk
    rw [hone, ← hcluster', ← hsize']
    exact ⟨hcluster, hsize⟩

end Whole

/-! ### Two images -/

/-- An image with the boot sector of a floppy and the entry given at the beginning of the root
    directory. -/
def rootFloppy (entry : ℕ → Byte) : Volume where
  sector n i := if n = 0 then sampleBoot i else if n = 19 ∧ i < 32 then entry i else 0
  bytesPerSector := 512
  sectorsPerCluster := 1
  reserved := 1
  fats := 2
  sectorsPerFat := 9
  rootEntries := 224
  sectors := 2880

def sampleBios (v : Volume) : Bios := fun r buff i =>
  if i < 512 * r.blocks.toNat then
    v.sector (Chs.lba 18 2 ⟨r.trackNo.toNat, r.headNo.toNat, r.sectorNo.toNat⟩ + i / 512) (i % 512)
  else buff i

theorem sampleBios_delivers (v : Volume) : Delivers (sampleBios v).int13 v :=
  fun _ _ _ _ _ _ _ _ hi => if_pos hi

theorem rootFloppy_image (entry : ℕ → Byte) : FloppyImage (rootFloppy entry) sampleBpb := by
  have h := sampleBoot_describes
  refine ⟨⟨h.bytePerSector, h.bootOccupySector, h.fatCount, h.rootEntryCount,
    h.fatOccupySector⟩, rfl, ?_, Nat.succ_pos 2879, ?_⟩
  · change 2880 ≤ 256 * (2 * 18)
    decide
  · simp [Volume.dataStart, Volume.rootStart, Volume.rootSectors, rootFloppy]

/-- The kernel, in the cluster 2 and with 600 bytes. -/
def kernelEntry (i : ℕ) : Byte :=
  match i with
  | 0x1a => 2
  | 0x1c => 0x58
  | 0x1d => 2
  | i => kernelName i

theorem startC_search_iff_kernel :
    SearchRight (sampleBios (rootFloppy kernelEntry)) (rootFloppy kernelEntry) sampleBpb
      (fun _ => 0) sampleLoader := by
  have hfile : (rootFloppy kernelEntry).FirstFile kernelName 0 := by
    refine ⟨by decide, fun m hm => ?_, ⟨?_, ?_, ?_⟩, fun m hm => absurd hm (Nat.not_lt_zero m)⟩
    · obtain rfl : m = 0 := by omega
      change ¬ (rootFloppy kernelEntry).dirByte 0 0 = 0
      decide
    · change ¬ (rootFloppy kernelEntry).dirByte 0 0 = 0xe5
      decide
    · change ¬ ((rootFloppy kernelEntry).dirByte 0 0x0b).getLsbD 3 = true
      decide
    · decide
  refine (startC_search_iff (sampleBios_delivers _) (rootFloppy_image _) _ _).mpr
    ⟨0, hfile, fun m hm _ _ => ?_⟩
  obtain rfl : m = 0 := by omega
  exact ⟨rfl, rfl⟩

/-- With an empty root directory `start_c` loads a sector all the same. -/
theorem empty_directory :
    ¬ SearchRight (sampleBios (rootFloppy fun _ => 0)) (rootFloppy fun _ => 0) sampleBpb
      (fun _ => 0) sampleLoader := by
  intro hright
  have hend : (rootFloppy fun _ => 0).IsEnd 0 := by
    change (rootFloppy fun _ => 0).dirByte 0 0 = 0
    decide
  obtain ⟨fuel, s', hload, hnothing⟩ :=
    hright.loadsNothing fun k hk => hk.notEnd 0 (Nat.zero_le k) hend
  exact startC_loads hload hnothing

end SimpleOs
