import SimpleOs.Lib.ByteMem
import SimpleOs.Lib.Fat12

/-!
# The kernel loader

Model of `init_bpb`, the part of `start_c` that computes the layout of the volume,
`read_sector`, `read_fat`, `get_next_cluster` and `load_file_to_ram`
(kernel_loader/kernel_loader.c:101-120, 351-407, 454-667, 733-756).

The BIOS is a parameter: `int13` says what a read puts into the buffer. The loader
reads `fat_buffer` and `read_data` through `%ds` and writes the kernel through
`%fs`, so they are apart from the memory. The counter `read_sector_count`, which is
set and compared but decides nothing, the output, and the wait for a key on an
entry 0 are left out.
-/

namespace SimpleOs

open ByteMem

/-! ## The layout of the volume -/

/-- `BPB` (kernel_loader.c:81-97). -/
structure Bpb where
  vendorName : List Byte
  bytePerSector : BitVec 16
  sectorPerCluster : BitVec 8
  bootOccupySector : BitVec 16
  fatCount : BitVec 8
  rootEntryCount : BitVec 16
  logicSectorCount : BitVec 16
  fatOccupySector : BitVec 16
  sectorPerTrack : BitVec 16
  headCount : BitVec 16
  hiddenSectorCount : BitVec 16
  rootDirOccupySector : BitVec 16
  rootDirStartSector : BitVec 16

/-- `((buff[hi] << 8) | buff[lo])`. -/
def half (buff : ℕ → Byte) (hi lo : ℕ) : BitVec 16 := buff hi ++ buff lo

/-- `init_bpb` (kernel_loader.c:101-120). -/
def initBpb (buff : ℕ → Byte) (bpb : Bpb) : Bpb :=
  { bpb with
    vendorName := (List.range 9).map fun i => buff (0x3 + i)
    bytePerSector := half buff 12 11
    sectorPerCluster := buff 0xd
    bootOccupySector := half buff 0xf 0xe
    fatCount := buff 0x10
    rootEntryCount := half buff 18 17
    logicSectorCount :=
      if half buff 0x14 0x13 = 0 then half buff 0x23 0x20 else half buff 0x14 0x13
    fatOccupySector := half buff 0x17 0x16
    sectorPerTrack := half buff 0x19 0x18
    headCount := half buff 0x1b 0x1a
    hiddenSectorCount := half buff 0x1f 0x1c }

/-- The lines of `start_c` behind `init_bpb` (kernel_loader.c:733-736, 756). -/
def startBpb (buff : ℕ → Byte) (bpb : Bpb) : Bpb :=
  let bpb := initBpb buff bpb
  let root := bpb.rootEntryCount.toNat * 32
  { bpb with
    rootDirOccupySector :=
      if root % bpb.bytePerSector.toNat ≠ 0 then
        BitVec.ofNat 16 (root / bpb.bytePerSector.toNat + 1)
      else BitVec.ofNat 16 (root / bpb.bytePerSector.toNat)
    rootDirStartSector := BitVec.ofNat 16
      (bpb.fatCount.toNat * bpb.fatOccupySector.toNat + bpb.bootOccupySector.toNat) }

section Layout

variable {buff buff' : ℕ → Byte} {bpb : Bpb}

/-- The parameters lie in the first 512 bytes. -/
theorem initBpb_congr (h : ∀ i < 512, buff i = buff' i) : initBpb buff bpb = initBpb buff' bpb := by
  have hhalf : ∀ hi < 512, ∀ lo < 512, half buff hi lo = half buff' hi lo := by
    intro hi hhi lo hlo
    unfold half
    rw [h hi hhi, h lo hlo]
  have hname : ((List.range 9).map fun i => buff (0x3 + i)) =
      (List.range 9).map fun i => buff' (0x3 + i) := by
    refine List.map_congr_left fun i hi => h _ ?_
    have hlt : i < 9 := List.mem_range.mp hi
    omega
  simp only [initBpb, hname, h 0xd (by omega), h 0x10 (by omega), hhalf 12 (by omega) 11 (by omega),
    hhalf 0xf (by omega) 0xe (by omega), hhalf 18 (by omega) 17 (by omega),
    hhalf 0x14 (by omega) 0x13 (by omega), hhalf 0x23 (by omega) 0x20 (by omega),
    hhalf 0x17 (by omega) 0x16 (by omega), hhalf 0x19 (by omega) 0x18 (by omega),
    hhalf 0x1b (by omega) 0x1a (by omega), hhalf 0x1f (by omega) 0x1c (by omega)]

theorem startBpb_congr (h : ∀ i < 512, buff i = buff' i) :
    startBpb buff bpb = startBpb buff' bpb := by
  unfold startBpb
  rw [initBpb_congr h]

end Layout

/-! ## Reading sectors -/

/-- The buffers of the loader. -/
inductive Buffer where
  | fatBuffer
  | readData
  deriving DecidableEq

/-- A call of `int 0x13` to read: the registers, and the buffer at `%es:%bx`. -/
structure SectorRead where
  buff : Buffer
  sectorNo : Byte
  trackNo : Byte
  headNo : Byte
  diskNo : Byte
  blocks : Byte
  deriving DecidableEq

/-- The BIOS: the buffer after a read, from the buffer before it. -/
abbrev Int13 := SectorRead → (ℕ → Byte) → ℕ → Byte

/-- The buffers, the memory that `%fs` reaches, `kernel_addr`, and the reads so far. -/
structure Loader where
  fatBuffer : ℕ → Byte
  readData : ℕ → Byte
  mem : Mem
  kernelAddr : BitVec 32
  reads : List SectorRead

/-- `read_sector` (kernel_loader.c:351-407). The callers ignore what it returns. -/
def readSector (int13 : Int13) (r : SectorRead) (s : Loader) : Loader :=
  match r.buff with
  | .fatBuffer => { s with fatBuffer := int13 r s.fatBuffer, reads := s.reads ++ [r] }
  | .readData => { s with readData := int13 r s.readData, reads := s.reads ++ [r] }

/-- `read_fat` (kernel_loader.c:454-470): two sectors. The number counts from 1, so
    no 1 is added. -/
def readFat (int13 : Int13) (fatSectorNo : BitVec 16) (s : Loader) : Loader :=
  readSector int13
    { buff := .fatBuffer
      sectorNo := BitVec.ofNat 8 (fatSectorNo.toNat % 18)
      trackNo := BitVec.ofNat 8 ((fatSectorNo.toNat / 18) >>> 1)
      headNo := BitVec.ofNat 8 ((fatSectorNo.toNat / 18) &&& 1)
      diskNo := 0
      blocks := 2 } s

/-- `get_next_cluster` (kernel_loader.c:482-577). -/
def getNextCluster (int13 : Int13) (curCluster : BitVec 16) (s : Loader) : BitVec 16 × Loader :=
  let cur := curCluster.toNat
  let offset := if cur % 2 = 1 then (cur - 1) / 2 * 3 else cur / 2 * 3
  let shortOffset := offset % 512
  let s := readFat int13 (BitVec.ofNat 16 (offset / 512 + 2)) s
  let buf (i : ℕ) : BitVec 32 := (s.fatBuffer (shortOffset + i)).setWidth 32
  let next : BitVec 32 :=
    if cur % 2 = 1 then buf 1 >>> 4 &&& (0x0f : BitVec 32) ||| buf 2 <<< 4
    else (buf 1 &&& (0x0f : BitVec 32)) <<< 8 ||| buf 0
  (next.setWidth 16, s)

/-- The number of the sector of a cluster (kernel_loader.c:586, 620). -/
def rSec (bpb : Bpb) (cluster : ℤ) : ℤ :=
  cluster - 2 + bpb.rootDirOccupySector.toNat + bpb.rootDirStartSector.toNat

/-- The read of a sector into `read_data`, with C's division and remainder
    (kernel_loader.c:593-600, 628-650). -/
def dataRead (r : ℤ) : SectorRead where
  buff := .readData
  sectorNo := BitVec.ofInt 8 (r.tmod 18 + 1)
  trackNo := BitVec.ofInt 8 (r.tdiv 18 >>> (1 : ℕ))
  headNo := BitVec.ofInt 8 (r.tdiv 18 % 2)
  diskNo := 0
  blocks := 1

/-- `asm_4g_memcpy(kernel_addr, (u32)buff, 512)` (kloader_init.S:169-211). -/
def asm4gMemcpy (s : Loader) : Loader :=
  { s with
    mem := fun a =>
      if InBlock s.kernelAddr 512 a then s.readData (a - s.kernelAddr).toNat else s.mem a }

/-- One sector of the file: read, copied, and `kernel_addr` moved on
    (kernel_loader.c:600-606, 650-652). -/
def loadSector (int13 : Int13) (bpb : Bpb) (cluster : ℤ) (s : Loader) : Loader :=
  let s := asm4gMemcpy (readSector int13 (dataRead (rSec bpb cluster)) s)
  { s with kernelAddr := s.kernelAddr + 512 }

/-! ## Loading a file -/

/-- The loop of `load_file_to_ram` (kernel_loader.c:618-661); `none` when it has not
    come to its end after `fuel` rounds. -/
def loadLoop (int13 : Int13) (bpb : Bpb) : ℕ → BitVec 16 → Loader → Option Loader
  | 0, _, _ => none
  | fuel + 1, curCluster, s =>
    let (nextCluster, s) := getNextCluster int13 curCluster s
    if nextCluster ≠ 0xfff then
      loadLoop int13 bpb fuel nextCluster (loadSector int13 bpb nextCluster.toNat s)
    else some s

/-- `load_file_to_ram(begin_cluster, fat)` (kernel_loader.c:581-667). -/
def loadFileToRam (int13 : Int13) (bpb : Bpb) (fuel : ℕ) (beginCluster : ℤ) (fat : ℤ)
    (s : Loader) : Option Loader :=
  let s := loadSector int13 bpb beginCluster s
  if fat ≠ 0 then loadLoop int13 bpb fuel (BitVec.ofInt 16 beginCluster) s else some s

end SimpleOs
