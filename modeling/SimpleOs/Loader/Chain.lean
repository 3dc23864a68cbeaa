import SimpleOs.Loader.Entry

/-!
# Loading a file

`load_file_to_ram` follows the chain of a file until `get_next_cluster` returns
`0xfff` (kernel_loader.c:618). The other marks of the end of a chain, `0xff8` to
`0xffe`, are not recognised: the loop takes them for the number of a cluster.

* `loadFileToRam_loads_iff`: when a file is loaded as it is on the floppy.
* `mark_loaded_as_cluster`: a file that ends with `0xff8`.
-/

namespace SimpleOs

open ByteMem Fat12

/-! ## The floppy -/

/-- The BIOS delivers what is on the disk, for reads that end on their track. -/
def Delivers (int13 : Int13) (v : Volume) : Prop :=
  ∀ r buff, r.diskNo = 0 → r.headNo.toNat < 2 → 1 ≤ r.sectorNo.toNat →
    r.sectorNo.toNat + r.blocks.toNat ≤ 19 → r.lba + r.blocks.toNat ≤ v.sectors →
    ∀ i, i < 512 * r.blocks.toNat → int13 r buff i = v.sector (r.lba + i / 512) (i % 512)

/-- The boot sector says how the volume is laid out. -/
structure Describes (bpb : Bpb) (v : Volume) : Prop where
  bytePerSector : bpb.bytePerSector.toNat = v.bytesPerSector
  sectorPerCluster : bpb.sectorPerCluster.toNat = v.sectorsPerCluster
  bootOccupySector : bpb.bootOccupySector.toNat = v.reserved
  fatCount : bpb.fatCount.toNat = v.fats
  rootEntryCount : bpb.rootEntryCount.toNat = v.rootEntries
  fatOccupySector : bpb.fatOccupySector.toNat = v.sectorsPerFat
  sectorPerTrack : bpb.sectorPerTrack = 18
  headCount : bpb.headCount = 2

/-- The boot sector says where the root directory is. -/
structure DescribesRoot (bpb : Bpb) (v : Volume) : Prop where
  bytePerSector : bpb.bytePerSector.toNat = v.bytesPerSector
  bootOccupySector : bpb.bootOccupySector.toNat = v.reserved
  fatCount : bpb.fatCount.toNat = v.fats
  rootEntryCount : bpb.rootEntryCount.toNat = v.rootEntries
  fatOccupySector : bpb.fatOccupySector.toNat = v.sectorsPerFat

/-- A floppy with the geometry that the loader assumes. The number of a cylinder is
    one byte, and the table has an entry for every cluster. -/
structure Floppy (v : Volume) (bpb : Bpb) : Prop where
  boot : Describes (initBpb (v.sector 0) bpb) v
  bytesPerSector : v.bytesPerSector = 512
  sectorsPerCluster : v.sectorsPerCluster = 1
  reserved : v.reserved = 1
  fats : 0 < v.fats
  rootEntries : 0 < v.rootEntries
  sectors : v.sectors ≤ 256 * (2 * 18)
  table : ∀ c, v.IsData c → c + c / 2 + 1 < v.sectorsPerFat * 512

/-! ## What loading means -/

/-- The clusters of the list have been read and copied, in this order, and nothing
    else but the table has been read. -/
structure Loaded (v : Volume) (clusters : List ℕ) (s s' : Loader) : Prop where
  contents : ∀ i (hi : i < clusters.length) j, j < 512 →
    s'.mem (s.kernelAddr + BitVec.ofNat 32 (512 * i + j)) =
      v.sector (v.clusterSector clusters[i]) j
  rest : ∀ a, ¬ InBlock s.kernelAddr (512 * clusters.length) a → s'.mem a = s.mem a
  kernelAddr : s'.kernelAddr = s.kernelAddr + BitVec.ofNat 32 (512 * clusters.length)
  reads : ∃ l, s'.reads = s.reads ++ l ∧
    (l.filter fun r => r.buff = .readData).map SectorRead.sectors =
      clusters.map (fun c => [v.clusterSector c]) ∧
    ∀ r ∈ l, r.buff = .fatBuffer → ∀ n ∈ r.sectors, n < v.dataStart

/-- The blocks of 512 bytes have been copied, in this order, and nothing else has been
    written. -/
structure Copied (blocks : List (ℕ → Byte)) (s s' : Loader) : Prop where
  contents : ∀ i (hi : i < blocks.length) j, j < 512 →
    s'.mem (s.kernelAddr + BitVec.ofNat 32 (512 * i + j)) = blocks[i] j
  rest : ∀ a, ¬ InBlock s.kernelAddr (512 * blocks.length) a → s'.mem a = s.mem a
  kernelAddr : s'.kernelAddr = s.kernelAddr + BitVec.ofNat 32 (512 * blocks.length)

/-- The sectors of the clusters. -/
def fileBlocks (v : Volume) (clusters : List ℕ) : List (ℕ → Byte) :=
  clusters.map fun c => v.sector (v.clusterSector c)

theorem length_fileBlocks (v : Volume) (clusters : List ℕ) :
    (fileBlocks v clusters).length = clusters.length := List.length_map _

theorem fileBlocks_getElem (v : Volume) (clusters : List ℕ) {i : ℕ}
    (hi : i < (fileBlocks v clusters).length) (hi' : i < clusters.length) :
    (fileBlocks v clusters)[i] = v.sector (v.clusterSector clusters[i]) := List.getElem_map _

section Loaded

variable {v : Volume} {l₁ l₂ : List ℕ} {b₁ b₂ : List (ℕ → Byte)} {s s₁ s₂ : Loader}

theorem Copied.append (h₁ : Copied b₁ s s₁) (h₂ : Copied b₂ s₁ s₂)
    (hlen : 512 * (b₁.length + b₂.length) < 2 ^ 32) : Copied (b₁ ++ b₂) s s₂ := by
  refine ⟨fun i hi j hj => ?_, fun a ha => ?_, ?_⟩
  · rw [List.length_append] at hi
    by_cases hl : i < b₁.length
    · have hout : ¬ InBlock s₁.kernelAddr (512 * b₂.length)
          (s.kernelAddr + BitVec.ofNat 32 (512 * i + j)) := by
        rw [h₁.kernelAddr]
        unfold InBlock
        bv_omega
      rw [h₂.rest _ hout, h₁.contents i hl j hj, List.getElem_append_left hl]
    · have haddr : s.kernelAddr + BitVec.ofNat 32 (512 * i + j) =
          s₁.kernelAddr + BitVec.ofNat 32 (512 * (i - b₁.length) + j) := by
        rw [h₁.kernelAddr]
        bv_omega
      rw [haddr, h₂.contents (i - b₁.length) (by omega) j hj,
        List.getElem_append_right (by omega)]
  · rw [List.length_append] at ha
    have hout₁ : ¬ InBlock s.kernelAddr (512 * b₁.length) a := by
      unfold InBlock at *
      omega
    have hout₂ : ¬ InBlock s₁.kernelAddr (512 * b₂.length) a := by
      rw [h₁.kernelAddr]
      unfold InBlock at *
      bv_omega
    rw [h₂.rest a hout₂, h₁.rest a hout₁]
  · rw [h₂.kernelAddr, h₁.kernelAddr, List.length_append]
    bv_omega

theorem Loaded.copied (h : Loaded v l₁ s s₁) : Copied (fileBlocks v l₁) s s₁ := by
  have hlen := length_fileBlocks v l₁
  refine ⟨fun i hi j hj => ?_, ?_, ?_⟩
  · rw [fileBlocks_getElem v l₁ hi (by omega)]
    exact h.contents i (by omega) j hj
  · rw [hlen]
    exact h.rest
  · rw [hlen]
    exact h.kernelAddr

/-- One list of clusters after another. -/
theorem Loaded.append (h₁ : Loaded v l₁ s s₁) (h₂ : Loaded v l₂ s₁ s₂)
    (hlen : 512 * (l₁.length + l₂.length) < 2 ^ 32) : Loaded v (l₁ ++ l₂) s s₂ := by
  have hlength₁ := length_fileBlocks v l₁
  have hlength₂ := length_fileBlocks v l₂
  have hlength := length_fileBlocks v (l₁ ++ l₂)
  have happend : fileBlocks v (l₁ ++ l₂) = fileBlocks v l₁ ++ fileBlocks v l₂ := List.map_append
  have hcopied : Copied (fileBlocks v (l₁ ++ l₂)) s s₂ := by
    rw [happend]
    exact h₁.copied.append h₂.copied (by omega)
  refine ⟨fun i hi j hj => ?_, ?_, ?_, ?_⟩
  · rw [hcopied.contents i (by omega) j hj, fileBlocks_getElem v (l₁ ++ l₂) (by omega) hi]
  · rw [← hlength]
    exact hcopied.rest
  · rw [← hlength]
    exact hcopied.kernelAddr
  · obtain ⟨r₁, hr₁, hdata₁, hfat₁⟩ := h₁.reads
    obtain ⟨r₂, hr₂, hdata₂, hfat₂⟩ := h₂.reads
    refine ⟨r₁ ++ r₂, by rw [hr₂, hr₁, List.append_assoc], ?_, fun r hr => ?_⟩
    · rw [List.filter_append, List.map_append, List.map_append, hdata₁, hdata₂]
    · rcases List.mem_append.mp hr with hr | hr
      · exact hfat₁ r hr
      · exact hfat₂ r hr

end Loaded

/-! ## The layout -/

section Layout

variable {v : Volume} {bpb : Bpb} {c n : ℕ}

theorem Floppy.clusterSector (h : Floppy v bpb) (c : ℕ) :
    v.clusterSector c = v.dataStart + (c - 2) := by
  unfold Volume.clusterSector
  rw [h.sectorsPerCluster, Nat.mul_one]

/-- The volume ends behind every cluster. -/
theorem Floppy.clusterSector_lt (h : Floppy v bpb) (hc : v.IsData c) :
    v.clusterSector c < v.sectors := by
  have hend := hc.2.2
  rw [h.sectorsPerCluster] at hend
  exact hend

theorem Floppy.dataStart_lt (h : Floppy v bpb) (hc : v.IsData c) : v.dataStart < v.sectors := by
  have hlt := h.clusterSector_lt hc
  rw [h.clusterSector] at hlt
  omega

theorem Describes.root (h : Describes bpb v) : DescribesRoot bpb v :=
  ⟨h.bytePerSector, h.bootOccupySector, h.fatCount, h.rootEntryCount, h.fatOccupySector⟩

section Root

variable {buff : ℕ → Byte}

theorem DescribesRoot.rootDirOccupySector (h : DescribesRoot (initBpb buff bpb) v)
    (hbytes : v.bytesPerSector = 512) :
    (startBpb buff bpb).rootDirOccupySector.toNat = v.rootSectors := by
  have hentries := (initBpb buff bpb).rootEntryCount.isLt
  unfold startBpb Volume.rootSectors
  dsimp only
  rw [h.bytePerSector, hbytes, ← h.rootEntryCount]
  split_ifs
  · rw [BitVec.toNat_ofNat]
    omega
  · rw [BitVec.toNat_ofNat]
    omega

/-- The number of the first sector of the root directory has 16 bits. -/
theorem DescribesRoot.rootDirStartSector (h : DescribesRoot (initBpb buff bpb) v)
    (hstart : v.rootStart < 2 ^ 16) :
    (startBpb buff bpb).rootDirStartSector.toNat = v.rootStart := by
  have hcomm : v.fats * v.sectorsPerFat + v.reserved = v.rootStart := Nat.add_comm _ _
  unfold startBpb
  dsimp only
  rw [h.fatCount, h.fatOccupySector, h.bootOccupySector, hcomm, BitVec.toNat_ofNat,
    Nat.mod_eq_of_lt hstart]

end Root

/-- The number that the loader computes for a cluster is that of its sector. -/
theorem Floppy.rSec (h : Floppy v bpb) (hc : v.IsData c) :
    rSec (startBpb (v.sector 0) bpb) c = v.clusterSector c := by
  have hc2 := hc.1
  unfold SimpleOs.rSec
  have hlt := h.dataStart_lt hc
  have hsectors := h.sectors
  have hstart : v.dataStart = v.rootStart + v.rootSectors := rfl
  rw [h.boot.root.rootDirOccupySector h.bytesPerSector,
    h.boot.root.rootDirStartSector (by omega), h.clusterSector]
  omega

/-! ## The reads -/

theorem dataRead_sectorNo (n : ℕ) : (dataRead n).sectorNo.toNat = n % 18 + 1 := by
  have hmod : (n : ℤ).tmod 18 = (n % 18 : ℕ) := rfl
  unfold dataRead
  dsimp only
  rw [hmod, ← Int.natCast_succ, BitVec.ofInt_natCast, BitVec.toNat_ofNat]
  omega

theorem dataRead_trackNo (hn : n < 256 * (2 * 18)) :
    (dataRead n).trackNo.toNat = n / 18 / 2 := by
  have hdiv : (n : ℤ).tdiv 18 >>> (1 : ℕ) = ((n / 18) >>> 1 : ℕ) := rfl
  unfold dataRead
  dsimp only
  rw [hdiv, BitVec.ofInt_natCast, BitVec.toNat_ofNat, Nat.shiftRight_eq_div_pow]
  omega

theorem dataRead_headNo (n : ℕ) : (dataRead n).headNo.toNat = n / 18 % 2 := by
  have hmod : (n : ℤ).tdiv 18 % 2 = (n / 18 % 2 : ℕ) := rfl
  unfold dataRead
  dsimp only
  rw [hmod, BitVec.ofInt_natCast, BitVec.toNat_ofNat]
  omega

/-- The translation to cylinder, head and sector is right on the whole disk. -/
theorem lba_dataRead (hn : n < 256 * (2 * 18)) : (dataRead n).lba = n := by
  unfold SectorRead.lba
  rw [dataRead_sectorNo, dataRead_trackNo hn, dataRead_headNo]
  exact lba_ofLba 18 2 n

theorem sectors_dataRead (hn : n < 256 * (2 * 18)) : (dataRead n).sectors = [n] := by
  have hblocks : (dataRead n).blocks.toNat = 1 := rfl
  unfold SectorRead.sectors
  rw [lba_dataRead hn, hblocks]
  rfl

/-- The BIOS delivers the sector that is asked for. -/
theorem Delivers.dataRead {int13 : Int13} (hbios : Delivers int13 v) (hn : n < 256 * (2 * 18))
    (hv : n < v.sectors) (buff : ℕ → Byte) {j : ℕ} (hj : j < 512) :
    int13 (dataRead n) buff j = v.sector n j := by
  have hlba := lba_dataRead hn
  have hno := dataRead_sectorNo n
  have hhead := dataRead_headNo n
  have hblocks : (SimpleOs.dataRead n).blocks.toNat = 1 := rfl
  rw [hbios _ _ rfl (by omega) (by omega) (by omega) (by omega) j (by omega), hlba,
    Nat.div_eq_of_lt hj, Nat.mod_eq_of_lt hj, Nat.add_zero]

/-- The read of the table ends before the first cluster, also when there is only one
    table. -/
theorem Floppy.fatRead_lt (h : Floppy v bpb) (hc : v.IsData c) :
    (fatRead c).lba + 1 < v.dataStart := by
  have htable := h.table c hc
  have hfats : v.sectorsPerFat ≤ v.fats * v.sectorsPerFat := Nat.le_mul_of_pos_left _ h.fats
  have hroot := h.rootEntries
  have hlt : c < 0x1000 := lt_trans hc.2.1 (by decide)
  rw [lba_fatRead hlt]
  unfold Volume.dataStart Volume.rootStart Volume.rootSectors
  rw [h.reserved, h.bytesPerSector]
  omega

end Layout

/-! ## The steps -/

section Steps

variable {v : Volume} {bpb : Bpb} {int13 : Int13} {c : ℕ} {s s' : Loader}

/-- The two sectors of the table that the read brings. -/
theorem Delivers.table (hbios : Delivers int13 v) (h : Floppy v bpb) (hc : v.IsData c)
    (buff : ℕ → Byte) {i : ℕ} (hi : i < 1024) :
    int13 (fatRead c) buff i = v.fatByte (c / 2 * 3 / 512 * 512 + i) := by
  have hlt : c < 0xff7 := hc.2.1
  have hlba := lba_fatRead (c := c) (by omega)
  have hno := fatRead_sectorNo (c := c) (by omega)
  have hblocks : (fatRead c).blocks.toNat = 2 := rfl
  have hhead : (fatRead c).headNo.toNat = 0 := rfl
  have hfit := h.fatRead_lt hc
  have hdata := h.dataStart_lt hc
  have hdiv : c / 2 * 3 / 512 + 1 + i / 512 = 1 + (c / 2 * 3 / 512 * 512 + i) / 512 := by omega
  have hmod : i % 512 = (c / 2 * 3 / 512 * 512 + i) % 512 := by omega
  rw [hbios (fatRead c) buff rfl (by omega) (by omega) (by omega) (by omega) _ (by omega), hlba,
    hdiv, hmod]
  unfold Volume.fatByte
  rw [h.reserved, h.bytesPerSector]

/-- The bytes of the entry. -/
theorem Delivers.fatByte (hbios : Delivers int13 v) (h : Floppy v bpb) (hc : v.IsData c)
    (buff : ℕ → Byte) {i : ℕ} (hi : i ≤ 2) :
    int13 (fatRead c) buff (c / 2 * 3 % 512 + i) = v.fatByte (c / 2 * 3 + i) := by
  have hoffset : c / 2 * 3 / 512 * 512 + (c / 2 * 3 % 512 + i) = c / 2 * 3 + i := by omega
  rw [hbios.table h hc buff (by omega), hoffset]

/-- `get_next_cluster` decodes the entry, also across two sectors. -/
theorem getNextCluster_eq (hbios : Delivers int13 v) (h : Floppy v bpb) (hc : v.IsData c)
    (s : Loader) :
    getNextCluster int13 (BitVec.ofNat 16 c) s =
      (BitVec.ofNat 16 (v.entry c), readSector int13 (fatRead c) s) := by
  have hlt : c < 0xff7 := hc.2.1
  rw [getNextCluster_decode (by omega) fun i hi => hbios.fatByte h hc s.fatBuffer hi,
    v.entry_eq_flatEntry, BitVec.ofNat_toNat, BitVec.setWidth_eq]

/-- Reading the table loads nothing. -/
theorem loaded_fatRead (h : Floppy v bpb) (hc : v.IsData c) (s : Loader) :
    Loaded v [] s (readSector int13 (fatRead c) s) := by
  refine ⟨fun i hi => absurd hi (by simp), fun a _ => rfl, ?_,
    [fatRead c], rfl, rfl, fun r hr _ n hn => ?_⟩
  · exact (BitVec.add_zero _).symm
  · rw [List.mem_singleton.mp hr] at hn
    obtain ⟨i, hi, rfl⟩ := List.mem_map.mp hn
    have hi2 : i < 2 := List.mem_range.mp hi
    have hlt := h.fatRead_lt hc
    omega

theorem loadSector_copied (int13 : Int13) (b : Bpb) (d : ℤ) (s : Loader) :
    Copied [int13 (dataRead (rSec b d)) s.readData] s (loadSector int13 b d s) := by
  refine ⟨fun i hi j hj => ?_, fun a ha => if_neg ha, rfl⟩
  obtain rfl : i = 0 := by simpa using hi
  have hoff : (s.kernelAddr + BitVec.ofNat 32 (512 * 0 + j) - s.kernelAddr).toNat = j := by
    bv_omega
  have hin : InBlock s.kernelAddr 512 (s.kernelAddr + BitVec.ofNat 32 (512 * 0 + j)) := by
    unfold InBlock
    omega
  refine (if_pos hin).trans ?_
  show int13 _ s.readData (_ - s.kernelAddr).toNat = _
  rw [hoff]
  rfl

/-- One sector of the file. -/
theorem loaded_loadSector (hbios : Delivers int13 v) (h : Floppy v bpb) (hc : v.IsData c)
    (s : Loader) : Loaded v [c] s (loadSector int13 (startBpb (v.sector 0) bpb) c s) := by
  have hsector := h.clusterSector_lt hc
  have hdisk := h.sectors
  have hlt : v.clusterSector c < 256 * (2 * 18) := by omega
  have hcopied := loadSector_copied int13 (startBpb (v.sector 0) bpb) c s
  rw [h.rSec hc] at hcopied
  refine ⟨fun i hi j hj => ?_, hcopied.rest, hcopied.kernelAddr,
    [dataRead (v.clusterSector c)], ?_, ?_, fun r hr hbuff => ?_⟩
  · obtain rfl : i = 0 := by simpa using hi
    rw [hcopied.contents 0 hi j hj]
    exact hbios.dataRead hlt hsector s.readData hj
  · unfold loadSector
    rw [h.rSec hc]
    rfl
  · change [(dataRead (v.clusterSector c)).sectors] = _
    rw [sectors_dataRead hlt]
    rfl
  · rw [List.mem_singleton.mp hr] at hbuff
    cases hbuff

/-! ## The loop -/

/-- How often `load_file_to_ram` has read a sector of the file. -/
def Loader.dataReads (s : Loader) : ℕ := (s.reads.filter fun r => r.buff = .readData).length

theorem Loaded.dataReads {l : List ℕ} (h : Loaded v l s s') :
    s'.dataReads = s.dataReads + l.length := by
  obtain ⟨r, hr, hdata, _⟩ := h.reads
  have hlen := congrArg List.length hdata
  rw [List.length_map, List.length_map] at hlen
  unfold Loader.dataReads
  rw [hr, List.filter_append, List.length_append, hlen]

/-- A round of the loop, in a cluster of the file. -/
theorem loadLoop_succ (hbios : Delivers int13 v) (h : Floppy v bpb) (hc : v.IsData c) (fuel : ℕ)
    (s : Loader) :
    loadLoop int13 (startBpb (v.sector 0) bpb) (fuel + 1) (BitVec.ofNat 16 c) s =
      if BitVec.ofNat 16 (v.entry c) ≠ 0xfff then
        loadLoop int13 (startBpb (v.sector 0) bpb) fuel (BitVec.ofNat 16 (v.entry c))
          (loadSector int13 (startBpb (v.sector 0) bpb) (BitVec.ofNat 16 (v.entry c)).toNat
            (readSector int13 (fatRead c) s))
      else some (readSector int13 (fatRead c) s) := by
  rw [loadLoop, getNextCluster_eq hbios h hc]

/-- The number of a cluster fits into `next_cluster` and is not the mark. -/
theorem cluster_ne_mark {d : ℕ} (hd : v.IsData d) :
    (BitVec.ofNat 16 d).toNat = d ∧ BitVec.ofNat 16 d ≠ 0xfff := by
  have hlt := hd.2.1
  have htoNat : (BitVec.ofNat 16 d).toNat = d := by
    rw [BitVec.toNat_ofNat]
    omega
  refine ⟨htoNat, fun hc => ?_⟩
  rw [hc] at htoNat
  have hmark : (0xfff : BitVec 16).toNat = 0xfff := rfl
  omega

/-- With the mark `0xfff` the loop ends, and has loaded the rest of the file. -/
theorem loadLoop_loads (hbios : Delivers int13 v) (h : Floppy v bpb) {l : List ℕ}
    (hchain : v.Chain 0xfff c l) (s : Loader) (hlen : 512 * (l.length + 1) < 2 ^ 32) :
    ∃ fuel s', loadLoop int13 (startBpb (v.sector 0) bpb) fuel (BitVec.ofNat 16 c) s = some s' ∧
      Loaded v l s s' := by
  induction hchain generalizing s with
  | @last c hdata hentry =>
    refine ⟨1, readSector int13 (fatRead c) s, ?_, loaded_fatRead h hdata s⟩
    rw [loadLoop_succ hbios h hdata, hentry]
    exact if_neg fun hne => hne rfl
  | @next c d l hdata hentry hrest ih =>
    have hd := hrest.isData_head
    obtain ⟨htoNat, hne⟩ := cluster_ne_mark hd
    rw [List.length_cons] at hlen
    have htable : Loaded v [] s (readSector int13 (fatRead c) s) := loaded_fatRead h hdata s
    have hsector := loaded_loadSector hbios h hd (readSector int13 (fatRead c) s)
    obtain ⟨fuel, s', hloop, hloaded⟩ := ih (loadSector int13 (startBpb (v.sector 0) bpb) d
      (readSector int13 (fatRead c) s)) (by omega)
    refine ⟨fuel + 1, s', ?_, ?_⟩
    · rw [loadLoop_succ hbios h hdata, hentry, if_pos hne, htoNat]
      exact hloop
    · have hone : ([d] : List ℕ).length = 1 := rfl
      have hrest' := hsector.append hloaded (by omega)
      refine htable.append hrest' ?_
      rw [List.length_nil, List.length_cons]
      omega

/-- The loop takes back no read. -/
theorem loadLoop_reads {fuel : ℕ} {b : Bpb} {cur : BitVec 16}
    (hloop : loadLoop int13 b fuel cur s = some s') : s.dataReads ≤ s'.dataReads := by
  have hmono : ∀ (s : Loader) (r : SectorRead),
      s.dataReads ≤ (readSector int13 r s).dataReads := by
    intro s r
    have hreads : (readSector int13 r s).reads = s.reads ++ [r] := by
      unfold readSector
      split
      · rfl
      · rfl
    unfold Loader.dataReads
    rw [hreads, List.filter_append, List.length_append]
    exact Nat.le_add_right _ _
  induction fuel generalizing cur s with
  | zero => cases hloop
  | succ fuel ih =>
    rw [loadLoop] at hloop
    have htable : s.dataReads ≤ (getNextCluster int13 cur s).2.dataReads := hmono s _
    split at hloop
    rename_i next s₁ hnext
    rw [hnext] at htable
    split_ifs at hloop with hne
    · have hsector : s₁.dataReads ≤ (loadSector int13 b next.toNat s₁).dataReads := hmono s₁ _
      exact htable.trans (hsector.trans (ih hloop))
    · cases hloop
      exact htable

theorem dataReads_loadSector (int13 : Int13) (b : Bpb) (d : ℤ) (s : Loader) :
    (loadSector int13 b d s).dataReads = s.dataReads + 1 := by
  change ((s.reads ++ [dataRead (rSec b d)]).filter fun r => r.buff = .readData).length = _
  rw [List.filter_append, List.length_append]
  rfl

/-- The first sector is read whatever the number of the cluster is. -/
theorem loadFileToRam_reads {fuel : ℕ} {b : Bpb} {first fat : ℤ}
    (hload : loadFileToRam int13 b fuel first fat s = some s') : s.dataReads < s'.dataReads := by
  have hfirst := dataReads_loadSector int13 b first s
  unfold loadFileToRam at hload
  dsimp only at hload
  split_ifs at hload
  · have hmono := loadLoop_reads hload
    omega
  · cases hload
    omega

/-- With another mark the loop reads at least one sector too many. -/
theorem loadLoop_overruns (hbios : Delivers int13 v) (h : Floppy v bpb) {mark : ℕ} {l : List ℕ}
    (hchain : v.Chain mark c l) (hmark : Volume.IsEndMark mark) (hne : mark ≠ 0xfff) {fuel : ℕ}
    (hloop : loadLoop int13 (startBpb (v.sector 0) bpb) fuel (BitVec.ofNat 16 c) s = some s') :
    s.dataReads + l.length < s'.dataReads := by
  induction hchain generalizing s fuel with
  | @last c hdata hentry =>
    cases fuel with
    | zero => cases hloop
    | succ fuel =>
      have hgo : BitVec.ofNat 16 mark ≠ 0xfff := by
        intro hc
        have htoNat := congrArg BitVec.toNat hc
        have hlt := hmark.2
        rw [BitVec.toNat_ofNat] at htoNat
        have hval : (0xfff : BitVec 16).toNat = 0xfff := rfl
        omega
      rw [loadLoop_succ hbios h hdata, hentry, if_pos hgo] at hloop
      have hmono := loadLoop_reads hloop
      rw [dataReads_loadSector, (loaded_fatRead h hdata s).dataReads] at hmono
      exact hmono
  | @next c d l hdata hentry hrest ih =>
    cases fuel with
    | zero => cases hloop
    | succ fuel =>
      obtain ⟨htoNat, hgo⟩ := cluster_ne_mark hrest.isData_head
      rw [loadLoop_succ hbios h hdata, hentry, if_pos hgo, htoNat] at hloop
      have hlt := ih hloop
      rw [dataReads_loadSector, (loaded_fatRead h hdata s).dataReads, List.length_nil] at hlt
      rw [List.length_cons]
      omega

end Steps

/-! ## Whole files -/

/-- For every floppy with the geometry that the loader assumes and every file of
    distinct clusters: `load_file_to_ram` returns and has loaded the file if and only if
    the file ends with the mark `0xfff`. -/
theorem loadFileToRam_loads_iff {int13 : Int13} {v : Volume} {bpb : Bpb} {mark c : ℕ} {l : List ℕ}
    (hbios : Delivers int13 v) (h : Floppy v bpb) (hchain : v.Chain mark c l)
    (hnodup : (c :: l).Nodup) (hmark : Volume.IsEndMark mark) (s : Loader) :
    (∃ fuel s', loadFileToRam int13 (startBpb (v.sector 0) bpb) fuel c 1 s = some s' ∧
      Loaded v (c :: l) s s') ↔ mark = 0xfff := by
  have hfirst := loaded_loadSector hbios h hchain.isData_head s
  have hlen := hchain.length_le hnodup
  rw [List.length_cons] at hlen
  have hload : ∀ fuel, loadFileToRam int13 (startBpb (v.sector 0) bpb) fuel c 1 s =
      loadLoop int13 (startBpb (v.sector 0) bpb) fuel (BitVec.ofNat 16 c)
        (loadSector int13 (startBpb (v.sector 0) bpb) c s) := by
    intro fuel
    unfold loadFileToRam
    dsimp only
    rw [if_pos (by decide), BitVec.ofInt_natCast]
  constructor
  · rintro ⟨fuel, s', hloop, hloaded⟩
    by_contra hne
    rw [hload] at hloop
    have hover := loadLoop_overruns hbios h hchain hmark hne hloop
    rw [dataReads_loadSector, hloaded.dataReads, List.length_cons] at hover
    omega
  · rintro rfl
    obtain ⟨fuel, s', hloop, hloaded⟩ := loadLoop_loads hbios h hchain
      (loadSector int13 (startBpb (v.sector 0) bpb) c s) (by omega)
    refine ⟨fuel, s', (hload fuel).trans hloop, ?_⟩
    have hone : ([c] : List ℕ).length = 1 := rfl
    exact hfirst.append hloaded (by omega)

/-! ### A file of two clusters -/

theorem sampleInt13_delivers (v : Volume) : Delivers (sampleInt13 v) v :=
  fun _ _ _ _ _ _ _ _ hi => if_pos hi

theorem sampleBoot_describes : Describes (initBpb sampleBoot sampleBpb) (sampleFloppy 0) :=
  ⟨by decide, by decide, by decide, by decide, by decide, by decide, by decide, by decide⟩

theorem sampleFloppy_floppy (low : Byte) : Floppy (sampleFloppy low) sampleBpb := by
  have h := sampleBoot_describes
  refine ⟨⟨h.bytePerSector, h.sectorPerCluster, h.bootOccupySector, h.fatCount, h.rootEntryCount,
    h.fatOccupySector, h.sectorPerTrack, h.headCount⟩, rfl, rfl, rfl, Nat.two_pos,
    Nat.succ_pos 223, ?_, fun c hc => ?_⟩
  · change 2880 ≤ 256 * (2 * 18)
    decide
  · have hend := hc.2.2
    have hstart : (sampleFloppy low).dataStart = 33 := by
      simp [Volume.dataStart, Volume.rootStart, Volume.rootSectors, sampleFloppy]
    unfold Volume.clusterSector at hend
    rw [hstart] at hend
    change 33 + (c - 2) * 1 + 1 ≤ 2880 at hend
    change c + c / 2 + 1 < 9 * 512
    omega

theorem loadFileToRam_loads_iff_sample :
    ∃ fuel s', loadFileToRam (sampleInt13 (sampleFloppy 0xf))
      (startBpb ((sampleFloppy 0xf).sector 0) sampleBpb) fuel 2 1 sampleLoader = some s' ∧
      Loaded (sampleFloppy 0xf) [2, 3] sampleLoader s' := by
  have hchain : (sampleFloppy 0xf).Chain 0xfff 2 [3] :=
    .next ⟨by decide, by decide, by decide⟩ (by decide)
      (.last ⟨by decide, by decide, by decide⟩ (by decide))
  exact (loadFileToRam_loads_iff (sampleInt13_delivers _) (sampleFloppy_floppy 0xf) hchain
    (by decide) ⟨by decide, by decide⟩ sampleLoader).mpr rfl

/-- The loop goes on with the mark `0xff8`. -/
theorem mark_loaded_as_cluster :
    (sampleFloppy 8).Chain 0xff8 2 [3] ∧ Volume.IsEndMark 0xff8 ∧
      ¬ ∃ fuel s', loadFileToRam (sampleInt13 (sampleFloppy 8))
        (startBpb ((sampleFloppy 8).sector 0) sampleBpb) fuel 2 1 sampleLoader = some s' ∧
        Loaded (sampleFloppy 8) [2, 3] sampleLoader s' := by
  have hchain : (sampleFloppy 8).Chain 0xff8 2 [3] :=
    .next ⟨by decide, by decide, by decide⟩ (by decide)
      (.last ⟨by decide, by decide, by decide⟩ (by decide))
  have hmark : Volume.IsEndMark 0xff8 := ⟨by decide, by decide⟩
  refine ⟨hchain, hmark, ?_⟩
  rintro ⟨fuel, s', hloop, hloaded⟩
  have hover := loadLoop_overruns (sampleInt13_delivers _) (sampleFloppy_floppy 8) hchain hmark
    (by decide) (s := loadSector (sampleInt13 (sampleFloppy 8))
      (startBpb ((sampleFloppy 8).sector 0) sampleBpb) 2 sampleLoader) hloop
  rw [dataReads_loadSector, hloaded.dataReads] at hover
  exact absurd hover (by decide)

end SimpleOs
