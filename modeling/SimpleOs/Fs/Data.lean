import SimpleOs.Fs.Lookup

/-!
# The data of a file

`romfs_get_daddr` (fs/romfs.c:211-219) takes the length of the name for 2, so
that the data of a file is read 32 bytes behind its header. The data stands
behind the padded name; the two agree for names of up to 15 characters.

* `getDaddr_exact`: they agree for no other names.
-/

namespace SimpleOs

open ByteMem

/-- Where the data of a file begins (`dumpri`, `dumpnode`,
    others/genromfs.c:285-372). -/
def RomHeader.dataOffset (h : RomHeader) : ℕ := h.offset + 16 + pad16 (h.name.length + 1)

/-- `inode` is the inode of a regular file with contents in the image on the
    device, in the root directory or below it. -/
structure FileInode (sd : StorageDevice) (mem : Mem) (h : RomHeader) (inode : Addr) : Prop where
  header : ∃ next, IsHeader mem sd.startPos sd.storageSize.toNat h next
  regular : beWord mem (sd.startPos + BitVec.ofNat 32 h.offset) &&& 7 = 2
  nonempty : h.size ≠ 0
  fits : h.dataOffset + h.size.toNat ≤ sd.storageSize.toNat
  daddr : readWord mem (inode + offDaddr) = BitVec.ofNat 32 h.offset
  dsize : readWord mem (inode + offDsize) = h.size

/-- `romfs_get_daddr` gives the offset of the data, and reading from it yields
    the contents. -/
def ReadsData (sd : StorageDevice) (mem : Mem) (h : RomHeader) (inode : Addr) : Prop :=
  romfsGetDaddr mem inode = BitVec.ofNat 32 h.dataOffset ∧
    ∀ buf, NoForwardOverlap h.size.toNat buf (BitVec.ofNat 32 h.dataOffset + sd.startPos) →
      SameBytes mem (ramdiskDout sd mem buf (romfsGetDaddr mem inode) h.size)
        (BitVec.ofNat 32 h.dataOffset + sd.startPos) buf h.size.toNat

section

variable {sd : StorageDevice} {mem : Mem} {h : RomHeader} {inode : Addr}

theorem FileInode.offset_lt (hf : FileInode sd mem h inode) : h.offset + 32 < 2 ^ 32 := by
  have hpos : 0 < h.size.toNat := by
    have := hf.nonempty
    rcases Nat.eq_zero_or_pos h.size.toNat with hzero | hpos
    · exact absurd (BitVec.eq_of_toNat_eq hzero) this
    · exact hpos
  have hfits := hf.fits
  have hlt := sd.storageSize.isLt
  unfold RomHeader.dataOffset pad16 at hfits
  omega

/-- What the function computes. -/
theorem FileInode.getDaddr_eq (hf : FileInode sd mem h inode) :
    romfsGetDaddr mem inode = BitVec.ofNat 32 (h.offset + 32) := by
  obtain ⟨_, hh⟩ := hf.header
  have haligned := hh.aligned
  have hlt := hf.offset_lt
  have hbound : getNext16Boundary (BitVec.ofNat 32 h.offset + 2) =
      BitVec.ofNat 32 (h.offset + 16) := by
    rw [show BitVec.ofNat 32 h.offset + 2 = BitVec.ofNat 32 (h.offset + 2) from
      (BitVec.ofNat_add ..).symm, getNext16Boundary_eq (by omega)]
    congr 1
    unfold pad16
    omega
  unfold romfsGetDaddr
  rw [hf.dsize, hf.daddr]
  dsimp only
  rw [if_pos hf.nonempty, hbound]
  exact (BitVec.ofNat_add ..).symm

theorem FileInode.dataOffset_iff (hf : FileInode sd mem h inode) :
    BitVec.ofNat 32 (h.offset + 32) = BitVec.ofNat 32 h.dataOffset ↔ h.name.length ≤ 15 := by
  have hlt := hf.offset_lt
  have hfits := hf.fits
  have hsd := sd.storageSize.isLt
  constructor
  · intro heq
    have hnat := ofNat_injective hlt (by omega) heq
    unfold RomHeader.dataOffset pad16 at hnat
    omega
  · intro hlen
    congr 1
    unfold RomHeader.dataOffset pad16
    omega

/-- The data is found for names of at most 15 characters, and for no others. -/
theorem getDaddr_exact (hf : FileInode sd mem h inode) :
    ReadsData sd mem h inode ↔ h.name.length ≤ 15 := by
  unfold ReadsData
  rw [hf.getDaddr_eq, hf.dataOffset_iff]
  refine ⟨fun hc => hc.1, fun hlen => ⟨hlen, fun buf hbuf i hi => ?_⟩⟩
  have hsize := h.size.isLt
  rw [hf.dataOffset_iff.mpr hlen]
  exact copy_dst hbuf hi (by omega)

end

/-! ### The sample image, and one with a longer name -/

/-- A memory with an inode at `0x400000`. -/
def inodeMem (mem : Mem) (h : RomHeader) : Mem :=
  writeWord (writeWord mem (0x400000 + offDsize) h.size) (0x400000 + offDaddr)
    (BitVec.ofNat 32 h.offset)

theorem getDaddr_exact_echo :
    ReadsData sampleSb.device (inodeMem (romMem sampleRomBytes []) ⟨64, echoName, 88⟩)
      ⟨64, echoName, 88⟩ 0x400000 := by
  have hf : FileInode sampleSb.device (inodeMem (romMem sampleRomBytes []) ⟨64, echoName, 88⟩)
      ⟨64, echoName, 88⟩ 0x400000 :=
    ⟨⟨0, by decide⟩, by decide, by decide, by decide, by decide, by decide⟩
  exact (getDaddr_exact hf).mpr (by decide)

/-- A file with a name of 16 characters, `aaaaaaaaaaaaaaaa`, and one byte. -/
def longHeader : RomHeader := ⟨32, List.replicate 16 0x61, 1⟩

def longRomBytes : List Byte :=
  romMagic ++ (bytesOf 96).reverse ++ bytesOf 0 ++ romName ++ List.replicate 13 0 ++
    dumpHeader 2 0 1 longHeader.name ++ [0x7a] ++ List.replicate 15 0

/-- The byte that is read is the end of the name. -/
theorem long_name_misread :
    FileInode ⟨0x200000, 96⟩ (inodeMem (romMem longRomBytes []) longHeader) longHeader 0x400000 ∧
      ¬ ReadsData ⟨0x200000, 96⟩ (inodeMem (romMem longRomBytes []) longHeader) longHeader
        0x400000 := by
  have hf : FileInode ⟨0x200000, 96⟩ (inodeMem (romMem longRomBytes []) longHeader) longHeader
      0x400000 :=
    ⟨⟨0, by decide⟩, by decide, by decide, by decide, by decide, by decide⟩
  refine ⟨hf, fun hc => ?_⟩
  have hdaddr := hc.1
  rw [hf.getDaddr_eq] at hdaddr
  exact absurd hdaddr (by decide)

end SimpleOs
