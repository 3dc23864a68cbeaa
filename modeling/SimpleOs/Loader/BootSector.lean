import SimpleOs.Lib.LittleEndian
import SimpleOs.Loader.Entry

/-!
# The BIOS parameter block

`init_bpb` takes the fields out of the boot sector byte by byte. For the number of hidden
sectors and for the 32-bit count of sectors it takes the highest byte of four instead of
the second (kernel_loader.c:114, 119).

* `initBpb_recovers_iff`: which parameter blocks come back.
* `hidden_sectors_lost`: the hidden sectors of a partition.
-/

namespace SimpleOs

open ByteMem LittleEndian

/-- The fields of a parameter block. -/
structure BiosParameters where
  bytesPerSector : BitVec 16
  sectorsPerCluster : BitVec 8
  reservedSectors : BitVec 16
  fats : BitVec 8
  rootEntries : BitVec 16
  totalSectors16 : BitVec 16
  fatSectors : BitVec 16
  sectorsPerTrack : BitVec 16
  heads : BitVec 16
  hiddenSectors : BitVec 32
  totalSectors32 : BitVec 32

/-- Where the fields lie in a boot sector (c-bootloader/fat.c:33-46). -/
structure BiosParameters.EncodedIn (p : BiosParameters) (sector : ℕ → Byte) : Prop where
  bytesPerSector : StoredAt sector 11 2 p.bytesPerSector
  sectorsPerCluster : StoredAt sector 13 1 p.sectorsPerCluster
  reservedSectors : StoredAt sector 14 2 p.reservedSectors
  fats : StoredAt sector 16 1 p.fats
  rootEntries : StoredAt sector 17 2 p.rootEntries
  totalSectors16 : StoredAt sector 19 2 p.totalSectors16
  fatSectors : StoredAt sector 22 2 p.fatSectors
  sectorsPerTrack : StoredAt sector 24 2 p.sectorsPerTrack
  heads : StoredAt sector 26 2 p.heads
  hiddenSectors : StoredAt sector 28 4 p.hiddenSectors
  totalSectors32 : StoredAt sector 32 4 p.totalSectors32

/-- Every field has its value; of the fields of 32 bits it is the low word. -/
structure BiosParameters.RecoveredIn (p : BiosParameters) (bpb : Bpb) : Prop where
  bytePerSector : bpb.bytePerSector = p.bytesPerSector
  sectorPerCluster : bpb.sectorPerCluster = p.sectorsPerCluster
  bootOccupySector : bpb.bootOccupySector = p.reservedSectors
  fatCount : bpb.fatCount = p.fats
  rootEntryCount : bpb.rootEntryCount = p.rootEntries
  logicSectorCount : bpb.logicSectorCount =
    if p.totalSectors16 = 0 then p.totalSectors32.setWidth 16 else p.totalSectors16
  fatOccupySector : bpb.fatOccupySector = p.fatSectors
  sectorPerTrack : bpb.sectorPerTrack = p.sectorsPerTrack
  headCount : bpb.headCount = p.heads
  hiddenSectorCount : bpb.hiddenSectorCount = p.hiddenSectors.setWidth 16

section Decoding

variable {sector : ℕ → Byte} {p : BiosParameters} {bpb : Bpb} {off : ℕ}

theorem half_stored {v : BitVec 16} (h : StoredAt sector off 2 v) :
    half sector (off + 1) off = v := by
  have h0 : sector off = byteOf v 0 := h 0 (by omega)
  have h1 : sector (off + 1) = byteOf v 1 := h 1 (by omega)
  unfold half
  rw [h0, h1, (append_byteOf_zero v 1).mpr rfl, BitVec.setWidth_eq]

theorem byte_stored {v : BitVec 8} (h : StoredAt sector off 1 v) : sector off = v := by
  have h0 : sector off = byteOf v 0 := h 0 (by omega)
  rw [h0]
  exact BitVec.extractLsb'_eq_self

/-- The last byte of four in the place of the second. -/
theorem half_last_iff {v : BitVec 32} (h : StoredAt sector off 4 v) :
    half sector (off + 3) off = v.setWidth 16 ↔ byteOf v 3 = byteOf v 1 := by
  have h0 : sector off = byteOf v 0 := h 0 (by omega)
  have h3 : sector (off + 3) = byteOf v 3 := h 3 (by omega)
  unfold half
  rw [h0, h3]
  exact append_byteOf_zero v 3

/-- For every parameter block and every sector that encodes it: `init_bpb` recovers all of
    its fields if and only if the two bytes that it mistakes for one another are equal,
    where it looks at them. -/
theorem initBpb_recovers_iff (h : p.EncodedIn sector) :
    p.RecoveredIn (initBpb sector bpb) ↔
      byteOf p.hiddenSectors 3 = byteOf p.hiddenSectors 1 ∧
        (p.totalSectors16 ≠ 0 ∨ byteOf p.totalSectors32 3 = byteOf p.totalSectors32 1) := by
  have hhidden := half_last_iff h.hiddenSectors
  have htotal := half_last_iff h.totalSectors32
  have hcount : (initBpb sector bpb).logicSectorCount =
      if p.totalSectors16 = 0 then half sector 0x23 0x20 else p.totalSectors16 := by
    show (if half sector 0x14 0x13 = 0 then _ else half sector 0x14 0x13) = _
    rw [half_stored h.totalSectors16]
  constructor
  · intro hrec
    refine ⟨hhidden.mp hrec.hiddenSectorCount, ?_⟩
    by_cases hzero : p.totalSectors16 = 0
    · have hlogic := hrec.logicSectorCount
      rw [hcount, if_pos hzero, if_pos hzero] at hlogic
      exact .inr (htotal.mp hlogic)
    · exact .inl hzero
  · intro ⟨hbyte, hsectors⟩
    refine ⟨half_stored h.bytesPerSector, byte_stored h.sectorsPerCluster,
      half_stored h.reservedSectors, byte_stored h.fats, half_stored h.rootEntries, ?_,
      half_stored h.fatSectors, half_stored h.sectorsPerTrack, half_stored h.heads,
      hhidden.mpr hbyte⟩
    rw [hcount]
    by_cases hzero : p.totalSectors16 = 0
    · rw [if_pos hzero, if_pos hzero]
      exact htotal.mpr (hsectors.resolve_left (not_not.mpr hzero))
    · rw [if_neg hzero, if_neg hzero]

end Decoding

/-! ### A floppy, and a partition -/

def floppyParameters : BiosParameters := ⟨512, 1, 1, 2, 224, 2880, 9, 18, 2, 0, 0⟩

theorem floppyParameters_encoded : floppyParameters.EncodedIn sampleBoot where
  bytesPerSector := by decide
  sectorsPerCluster := by decide
  reservedSectors := by decide
  fats := by decide
  rootEntries := by decide
  totalSectors16 := by decide
  fatSectors := by decide
  sectorsPerTrack := by decide
  heads := by decide
  hiddenSectors := by decide
  totalSectors32 := by decide

theorem initBpb_recovers_iff_floppy : floppyParameters.RecoveredIn (initBpb sampleBoot sampleBpb) :=
  (initBpb_recovers_iff floppyParameters_encoded).mpr ⟨by decide, .inl (by decide)⟩

/-- The same volume behind 2048 sectors of a disk. -/
def partitionParameters : BiosParameters := { floppyParameters with hiddenSectors := 2048 }

def partitionBoot (i : ℕ) : Byte := if i = 29 then 8 else sampleBoot i

/-- The number of hidden sectors comes out as 0. -/
theorem hidden_sectors_lost :
    partitionParameters.EncodedIn partitionBoot ∧
      (initBpb partitionBoot sampleBpb).hiddenSectorCount = 0 ∧
      ¬ partitionParameters.RecoveredIn (initBpb partitionBoot sampleBpb) := by
  have hencoded : partitionParameters.EncodedIn partitionBoot :=
    ⟨by decide, by decide, by decide, by decide, by decide, by decide, by decide, by decide,
      by decide, by decide, by decide⟩
  have hzero : (initBpb partitionBoot sampleBpb).hiddenSectorCount = 0 := by decide
  refine ⟨hencoded, hzero, fun hrec => ?_⟩
  have hvalue := hrec.hiddenSectorCount
  rw [hzero] at hvalue
  exact absurd hvalue (by decide)

end SimpleOs
