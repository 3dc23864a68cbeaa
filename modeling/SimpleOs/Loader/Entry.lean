import SimpleOs.Lib.Logged
import SimpleOs.Loader.Model

/-!
# The file allocation table

`get_next_cluster` cuts an entry of 12 bits out of two sectors that `read_fat` brings into
`fat_buffer`. The number of the first of them counts from 1, so `read_fat` adds no 1 to it
(kernel_loader.c:457, 515).

* `getNextCluster_decode`: the entry, from three bytes of the table.
* `getNextCluster_entry`: for every contents of the table and every entry, also one that lies
  in two sectors, what is returned, and that no byte beyond `fat_buffer` is read.
-/

namespace SimpleOs

open ByteMem Fat12 Logged

/-! ## The reads -/

/-- The sectors that a read asks for, on a disk with 18 sectors to a track and two
    heads. -/
def SectorRead.lba (r : SectorRead) : ℕ :=
  Chs.lba 18 2 ⟨r.trackNo.toNat, r.headNo.toNat, r.sectorNo.toNat⟩

def SectorRead.sectors (r : SectorRead) : List ℕ :=
  (List.range r.blocks.toNat).map (r.lba + ·)

section Reads

variable {c : ℕ}

/-- The read that `read_fat` makes for the cluster `c`. -/
def fatRead (c : ℕ) : SectorRead where
  buff := .fatBuffer
  sectorNo := BitVec.ofNat 8 (c / 2 * 3 / 512 + 2)
  trackNo := 0
  headNo := 0
  diskNo := 0
  blocks := 2

theorem fatRead_sectorNo (hc : c < 0x1000) : (fatRead c).sectorNo.toNat = c / 2 * 3 / 512 + 2 := by
  unfold fatRead
  dsimp only
  rw [BitVec.toNat_ofNat]
  omega

theorem lba_fatRead (hc : c < 0x1000) : (fatRead c).lba = c / 2 * 3 / 512 + 1 := by
  have htrack : (fatRead c).trackNo.toNat = 0 := rfl
  have hhead : (fatRead c).headNo.toNat = 0 := rfl
  unfold SectorRead.lba Chs.lba
  dsimp only
  rw [fatRead_sectorNo hc, htrack, hhead]
  omega

theorem readFat_eq (int13 : Int13) (hc : c < 0x1000) (s : Loader) :
    readFat int13 (BitVec.ofNat 16 (c / 2 * 3 / 512 + 2)) s =
      readSector int13 (fatRead c) s := by
  have hno : (BitVec.ofNat 16 (c / 2 * 3 / 512 + 2)).toNat = c / 2 * 3 / 512 + 2 := by
    rw [BitVec.toNat_ofNat]
    omega
  have hsector : (c / 2 * 3 / 512 + 2) % 18 = c / 2 * 3 / 512 + 2 := by omega
  have htrack : (c / 2 * 3 / 512 + 2) / 18 = 0 := by omega
  unfold readFat fatRead
  rw [hno, hsector, htrack]
  rfl

end Reads

/-! ## Decoding -/

/-- The entry is decoded from the three bytes of the table at the offset, of which the code
    takes two. -/
theorem getNextCluster_decode {int13 : Int13} {b : ℕ → Byte} {c : ℕ} {s : Loader} (hc : c < 0x1000)
    (hb : ∀ i, i ≤ 2 → int13 (fatRead c) s.fatBuffer (c / 2 * 3 % 512 + i) = b (c / 2 * 3 + i)) :
    getNextCluster int13 (BitVec.ofNat 16 c) s =
      (flatEntry b c, readSector int13 (fatRead c) s) := by
  have hcur : (BitVec.ofNat 16 c).toNat = c := by
    rw [BitVec.toNat_ofNat]
    omega
  have hbyte : ∀ i, i ≤ 2 → (readSector int13 (fatRead c) s).fatBuffer (c / 2 * 3 % 512 + i) =
      b (c / 2 * 3 + i) := hb
  have hentry := toNat_flatEntry b c
  unfold getNextCluster
  dsimp only
  rw [hcur]
  by_cases hodd : c % 2 = 1
  · have hoffset : (c - 1) / 2 * 3 = c / 2 * 3 := by omega
    have hlo : 3 * c / 2 = c / 2 * 3 + 1 := by omega
    have hhi : 3 * c / 2 + 1 = c / 2 * 3 + 2 := by omega
    rw [if_pos hodd, hhi, hlo] at hentry
    rw [if_pos hodd, if_pos hodd, hoffset, readFat_eq int13 hc, hbyte 1 (by omega),
      hbyte 2 (by omega)]
    refine Prod.ext (BitVec.eq_of_toNat_eq ?_) rfl
    have hlt := (flatEntry b c).isLt
    rw [BitVec.toNat_setWidth, odd_entry, hentry]
    omega
  · have hlo : 3 * c / 2 = c / 2 * 3 := by omega
    rw [if_neg hodd, hlo] at hentry
    rw [if_neg hodd, if_neg hodd, readFat_eq int13 hc, hbyte 1 (by omega), hbyte 0 (by omega)]
    refine Prod.ext (BitVec.eq_of_toNat_eq ?_) rfl
    have hlt := (flatEntry b c).isLt
    rw [BitVec.toNat_setWidth, even_entry, hentry, Nat.add_zero]
    omega

/-! ## The bytes that are read -/

/-- `fat_buffer` (kernel_loader.c:46). -/
def fatBufferSize : ℕ := 2048

/-- A byte of `fat_buffer`, with its index in the log. -/
def loadFatBuffer (s : Loader) (i : ℕ) : Logged ℕ Empty (BitVec 32) := do
  emit i
  pure ((s.fatBuffer i).setWidth 32)

/-- `get_next_cluster` (kernel_loader.c:482-577) once more, with a log of the bytes of
    `fat_buffer` that it reads. -/
def getNextClusterLog (int13 : Int13) (curCluster : BitVec 16) (s : Loader) :
    Logged ℕ Empty (BitVec 16 × Loader) :=
  let cur := curCluster.toNat
  let offset := if cur % 2 = 1 then (cur - 1) / 2 * 3 else cur / 2 * 3
  let shortOffset := offset % 512
  let s := readFat int13 (BitVec.ofNat 16 (offset / 512 + 2)) s
  if cur % 2 = 1 then do
    let b1 ← loadFatBuffer s (shortOffset + 1)
    let b2 ← loadFatBuffer s (shortOffset + 2)
    pure ((b1 >>> 4 &&& (0x0f : BitVec 32) ||| b2 <<< 4).setWidth 16, s)
  else do
    let b1 ← loadFatBuffer s (shortOffset + 1)
    let b0 ← loadFatBuffer s (shortOffset + 0)
    pure (((b1 &&& (0x0f : BitVec 32)) <<< 8 ||| b0).setWidth 16, s)

/-- The log changes nothing. -/
theorem getNextClusterLog_result (int13 : Int13) (c : BitVec 16) (s : Loader) :
    (getNextClusterLog int13 c s).result = .ok (getNextCluster int13 c s) := by
  unfold getNextClusterLog getNextCluster
  dsimp only
  by_cases hodd : c.toNat % 2 = 1
  · simp only [if_pos hodd]
    rfl
  · simp only [if_neg hodd]
    rfl

/-- Two sectors are enough for every cluster. -/
theorem lt_of_mem_getNextClusterLog {int13 : Int13} {c : BitVec 16} {s : Loader} {i : ℕ}
    (hi : i ∈ (getNextClusterLog int13 c s).log) : i < 1024 := by
  unfold getNextClusterLog at hi
  dsimp only at hi
  by_cases hodd : c.toNat % 2 = 1
  · simp only [if_pos hodd] at hi
    change i ∈ [_, _] at hi
    rw [List.mem_pair] at hi
    omega
  · simp only [if_neg hodd] at hi
    change i ∈ [_, _] at hi
    rw [List.mem_pair] at hi
    omega

/-! ## Every contents of the table -/

/-- `read_sector` delivers two consecutive sectors of the disk, for reads that end on their
    track. -/
def DeliversPairs (int13 : Int13) (disk : ℕ → ℕ → Byte) : Prop :=
  ∀ r buff, r.diskNo = 0 → r.headNo.toNat < 2 → 1 ≤ r.sectorNo.toNat →
    r.sectorNo.toNat + 2 ≤ 19 → r.blocks = 2 →
    ∀ i, i < 1024 → int13 r buff i = disk (r.lba + i / 512) (i % 512)

/-- The table that begins at the logical sector 1, as one string of bytes. -/
def fatBytes (disk : ℕ → ℕ → Byte) (i : ℕ) : Byte := disk (1 + i / 512) (i % 512)

/-- The bytes of the table that the read brings. -/
theorem DeliversPairs.fatByte {int13 : Int13} {disk : ℕ → ℕ → Byte}
    (hbios : DeliversPairs int13 disk) {c : ℕ} (hc : c < 0x1000) (buff : ℕ → Byte) {i : ℕ}
    (hi : i ≤ 2) :
    int13 (fatRead c) buff (c / 2 * 3 % 512 + i) = fatBytes disk (c / 2 * 3 + i) := by
  have hlba := lba_fatRead (c := c) (by omega)
  have hno := fatRead_sectorNo (c := c) (by omega)
  have hhead : (fatRead c).headNo.toNat = 0 := rfl
  have hdiv : c / 2 * 3 / 512 + 1 + (c / 2 * 3 % 512 + i) / 512 = 1 + (c / 2 * 3 + i) / 512 := by
    omega
  have hmod : (c / 2 * 3 % 512 + i) % 512 = (c / 2 * 3 + i) % 512 := by omega
  rw [hbios (fatRead c) buff rfl (by omega) (by omega) (by omega) rfl _ (by omega), hlba, hdiv,
    hmod]
  rfl

/-- For every contents of the table of nine sectors and every cluster that has an entry in it:
    `get_next_cluster` returns that entry and reads no byte beyond `fat_buffer`. -/
theorem getNextCluster_entry {int13 : Int13} {disk : ℕ → ℕ → Byte}
    (hbios : DeliversPairs int13 disk) {c : BitVec 16} (hc : c.toNat < 3072) (s : Loader) :
    (getNextCluster int13 c s).1 = flatEntry (fatBytes disk) c.toNat ∧
      ∀ i ∈ (getNextClusterLog int13 c s).log, i < fatBufferSize := by
  have hdecode := getNextCluster_decode (s := s) (b := fatBytes disk) (c := c.toNat) (by omega)
    fun i hi => hbios.fatByte (by omega) s.fatBuffer hi
  rw [BitVec.ofNat_toNat, BitVec.setWidth_eq] at hdecode
  refine ⟨by rw [hdecode], fun i hi => ?_⟩
  have hlt := lt_of_mem_getNextClusterLog hi
  unfold fatBufferSize
  omega

/-! ### An entry in two sectors -/

/-- A boot sector: 512 bytes, one sector to a cluster, one reserved sector, two
    tables of 9 sectors, 224 entries, 2880 sectors, 18 sectors, 2 heads. -/
def sampleBoot (i : ℕ) : Byte :=
  match i with
  | 12 => 2
  | 13 => 1
  | 14 => 1
  | 16 => 2
  | 17 => 224
  | 19 => 0x40
  | 20 => 0x0b
  | 22 => 9
  | 24 => 18
  | 26 => 2
  | _ => 0

/-- A floppy with a file in the clusters 2 and 3, which ends with `0xff0` and the
    low half of the byte given. -/
def sampleFloppy (low : Byte) : Volume where
  sector n i :=
    if n = 0 then sampleBoot i
    else if n = 1 then
      match i with
      | 3 => 3
      | 4 => low <<< 4
      | 5 => 0xff
      | _ => 0
    else BitVec.ofNat 8 n
  bytesPerSector := 512
  sectorsPerCluster := 1
  reserved := 1
  fats := 2
  sectorsPerFat := 9
  rootEntries := 224
  sectors := 2880

def sampleBpb : Bpb := ⟨[], 0, 0, 0, 0, 0, 0, 0, 0, 0, 0, 0, 0⟩

/-- A BIOS that reads without an error. -/
def sampleInt13 (v : Volume) : Int13 := fun r buff i =>
  if i < 512 * r.blocks.toNat then v.sector (r.lba + i / 512) (i % 512) else buff i

def sampleLoader : Loader := ⟨fun _ => 0, fun _ => 0, fun _ => 0, 0x300000, []⟩

theorem sampleInt13_deliversPairs (v : Volume) : DeliversPairs (sampleInt13 v) v.sector := by
  intro r buff _ _ _ _ hblocks i hi
  have htoNat : r.blocks.toNat = 2 := congrArg BitVec.toNat hblocks
  exact if_pos (by omega)

/-- The entry 341 lies in the sectors 1 and 2. -/
theorem getNextCluster_entry_two_sectors :
    (getNextCluster (sampleInt13 (sampleFloppy 0xf)) 341 sampleLoader).1 = 0x20 ∧
      ∀ i ∈ (getNextClusterLog (sampleInt13 (sampleFloppy 0xf)) 341 sampleLoader).log,
        i < fatBufferSize := by
  have hentry := getNextCluster_entry (sampleInt13_deliversPairs (sampleFloppy 0xf))
    (c := 341) (by decide) sampleLoader
  have hvalue : flatEntry (fatBytes (sampleFloppy 0xf).sector) (341 : BitVec 16).toNat = 0x20 := by
    decide
  rw [hvalue] at hentry
  exact hentry

end SimpleOs
