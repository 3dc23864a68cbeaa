import SimpleOs.Lib.CString
import SimpleOs.Mm.Model

/-!
# romfs

Model of `s_strlen` and `s_strcmp` (include/k_string.h:12-37), of the ramdisk
(storage.c:11-19) and of `print_romfs_entry`, `romfs_namei` and
`romfs_get_daddr` (fs/romfs.c:32-219), and of the lines of `do_execl` that read
a file (mm/mm.c:301-304).

The bytes on the screen are not part of the model, but where output goes is:
`romfs_namei` writes from `0xb8000` on as much as it is asked to, and the kernel
stands at `0x100000` (k.ld), so output that gets there is the fault `overrun`.
-/

namespace SimpleOs

open ByteMem

/-! ## Strings -/

/-- The loop of `s_strlen`, with the counter, a `u8`, in `len`. A string without
    an end within the address space is never left. -/
def sStrlenLoop (mem : Mem) : ℕ → Addr → BitVec 8 → Except Fault (BitVec 8)
  | 0, _, _ => .error .spin
  | fuel + 1, s, len => if mem s ≠ 0 then sStrlenLoop mem fuel (s + 1) (len + 1) else .ok len

/-- `s_strlen` (include/k_string.h:12-19). -/
def sStrlen (mem : Mem) (s : Addr) : Except Fault (BitVec 32) := do
  let len ← sStrlenLoop mem (2 ^ 32) s 0
  .ok (len.setWidth 32)

/-- The loop of `s_strcmp`; `res` is an `s8`. -/
def sStrcmpLoop (mem : Mem) : ℕ → Addr → Addr → Except Fault (BitVec 8)
  | 0, _, _ => .error .spin
  | fuel + 1, s1, s2 =>
    let res := mem s1 - mem s2
    if res ≠ 0 ∨ mem s1 = 0 then .ok res else sStrcmpLoop mem fuel (s1 + 1) (s2 + 1)

/-- `s_strcmp` (include/k_string.h:30-37). -/
def sStrcmp (mem : Mem) (s1 s2 : Addr) : Except Fault (BitVec 8) := sStrcmpLoop mem (2 ^ 32) s1 s2

/-! ## The screen -/

/-- The address of the video memory. -/
abbrev videoBase : ℕ := 0xb8000

/-- Output of `n` characters at `vb`, one in every second byte. -/
def display (vb n : ℕ) : Except Fault Unit :=
  if vb + 2 * n ≤ kernelText then .ok () else .error .overrun

/-- `s32_print(s, vb)` (io/k_stdio.c:19-30). -/
def s32Print (mem : Mem) : ℕ → Addr → ℕ → Except Fault Unit
  | 0, _, _ => .error .spin
  | fuel + 1, s, vb =>
    if mem s ≠ 0 then do
      display vb 1
      s32Print mem fuel (s + 1) (vb + 2)
    else .ok ()

/-- `s32_print_int(i, vb, 16)` (io/k_stdio.c:116-123). -/
def s32PrintHex (i : BitVec 32) (vb : ℕ) : Except Fault Unit :=
  display vb (Nat.toDigits 16 i.toNat).length

/-- `p_dump_u8(buff, len)` (io/k_stdio.c:149-175): two digits and a blank for
    each byte. -/
def pDumpU8 (len : BitVec 32) : Except Fault Unit := display videoBase (3 * len.toInt.toNat)

/-! ## The ramdisk -/

/-- `StorageDevice` (include/storage.h:11-18), as far as romfs uses it. -/
structure StorageDevice where
  startPos : Addr
  storageSize : BitVec 32

/-- `ramdisk_dout` (storage.c:11-19); it returns `size`. -/
def ramdiskDout (sd : StorageDevice) (mem : Mem) (dest addr : Addr) (size : BitVec 32) : Mem :=
  pAsmMemcpy mem dest (addr + sd.startPos) size.toNat

/-- `SuperBlock` (include/vfs.h:27-33): where it stands, and its device. -/
structure SuperBlock where
  addr : Addr
  device : StorageDevice

/-- The offsets of the members of `INode` (include/vfs.h:18-25). -/
abbrev offFnName : Addr := 0
abbrev offDsize : Addr := 8
abbrev offDaddr : Addr := 12
abbrev offSb : Addr := 16

/-! ## `romfs_namei` -/

/-- `be32tole32` (include/endian.h:35-42). -/
def be32tole32 (w : BitVec 32) : BitVec 32 :=
  w.extractLsb' 0 8 ++ w.extractLsb' 8 8 ++ w.extractLsb' 16 8 ++ w.extractLsb' 24 8

/-- `get_next_16_boundary` (include/romfs.h:50-60). -/
def getNext16Boundary (curOffset : BitVec 32) : BitVec 32 :=
  if curOffset &&& 15 ≠ 0 then curOffset + (16 - (curOffset &&& 15)) else curOffset

/-- `print_romfs_entry(line, &offset, buf, 0)` (fs/romfs.c:32-98), which prints
    nothing: it measures the name and advances `offset` to the next header. -/
def printRomfsEntry (mem : Mem) (offset : BitVec 32) (buf : Addr) : Except Fault (BitVec 32) := do
  let _ ← sStrlen mem (buf + (offset + 16))
  .ok (be32tole32 (readWord mem (buf + offset)) &&& 0xfffffff0)

/-- What `romfs_namei` prints about a header that it passes (fs/romfs.c:187-200),
    and the next line. `clear_line` takes the line as a `u8` and stays on the
    screen. -/
def displayEntry (line : ℕ) (nextOffset fileSize fnContentOffset : BitVec 32) :
    Except Fault ℕ := do
  display (videoBase + 160 * line) 12
  s32PrintHex nextOffset (videoBase + 160 * line + 12 * 2)
  let line := line + 1
  if nextOffset ≠ 0 ∧ fnContentOffset ≠ 0 then do
    display (videoBase + 160 * line) 11
    s32PrintHex fnContentOffset (videoBase + 160 * line + 12 * 2)
    pDumpU8 fileSize
    .ok (line + 1)
  else .ok line

/-- The `do … while(next_offset)` loop of `romfs_namei` (fs/romfs.c:149-202): the
    offset of the first header with the name `dir`, if the loop gets to one. An
    offset is a multiple of 16 behind the first round, so that a loop of more
    than `2 ^ 28 + 1` rounds never ends. -/
def scanEntries (mem : Mem) (buf dir : Addr) : ℕ → ℕ → BitVec 32 → Except Fault (Option (BitVec 32))
  | 0, _, _ => .error .spin
  | fuel + 1, line, nextOffset => do
    let nextOffset ← printRomfsEntry mem nextOffset buf
    let fnOffset := nextOffset + 16
    let _ ← sStrlen mem (buf + fnOffset)
    let cmp ← sStrcmp mem (buf + fnOffset) dir
    if cmp = 0 then .ok (some nextOffset)
    else do
      let fileSize := be32tole32 (readWord mem (buf + nextOffset + 8))
      let fnContentOffset := if fileSize ≠ 0 then getNext16Boundary (fnOffset + fileSize) else 0
      let line ← displayEntry line nextOffset fileSize fnContentOffset
      if nextOffset ≠ 0 then scanEntries mem buf dir fuel line nextOffset else .ok none

/-- The inode that `romfs_namei` fills for the header at `nextOffset`
    (fs/romfs.c:160-172). -/
def fillInode (sb : SuperBlock) (k : Machine) (buf dir : Addr) (nextOffset : BitVec 32) :
    Except Fault (Machine × Addr) := do
  let (inode, k) := allocMem k
  display (videoBase + 160 * 24) 8
  s32Print k.mem (2 ^ 32) dir (videoBase + 160 * 24 + 13 * 2)
  let mem := writeWord k.mem (inode + offFnName) (buf + (nextOffset + 16))
  let mem := writeWord mem (inode + offDsize)
    (be32tole32 (readWord mem (buf + nextOffset + 8)))
  let mem := writeWord mem (inode + offDaddr) nextOffset
  let mem := writeWord mem (inode + offSb) sb.addr
  .ok (freeMem { k with mem := mem } buf, inode)

/-- `romfs_namei(sb, dir)` (fs/romfs.c:102-209): the inode, or 0. `dout` reads the
    whole device, so `all_read_count >= storage_size` holds behind the first
    round of the outer loop, which ends there. -/
def romfsNamei (sb : SuperBlock) (k : Machine) (dir : Addr) : Except Fault (Machine × Addr) := do
  let (buf, k) := allocMem k
  let k := { k with mem := ramdiskDout sb.device k.mem buf 0 sb.device.storageSize }
  if sb.device.storageSize = 0 then .ok (k, 0)
  else do
    let volumeLen ← sStrlen k.mem (buf + 16)
    match ← scanEntries k.mem buf dir (2 ^ 28 + 2) 7 (getNext16Boundary (volumeLen + 0x10)) with
    | some nextOffset => fillInode sb k buf dir nextOffset
    | none => .ok (k, 0)

/-- `romfs_get_daddr(inode)` (fs/romfs.c:211-219). -/
def romfsGetDaddr (mem : Mem) (inode : Addr) : BitVec 32 :=
  let fnLen : BitVec 32 := 2
  let fileSize := readWord mem (inode + offDsize)
  let fnContentOffset :=
    if fileSize ≠ 0 then getNext16Boundary (readWord mem (inode + offDaddr) + fnLen) else 0
  fnContentOffset + 16

/-! ## Reading a file -/

/-- The lines of `do_execl` that read the file `dir` (mm/mm.c:301-304); the
    inode is not compared with 0. -/
def readFile (sb : SuperBlock) (k : Machine) (dir : Addr) : Except Fault (Machine × Addr) := do
  let (k, inode) ← romfsNamei sb k dir
  let addr := romfsGetDaddr k.mem inode
  let (buf, k) := allocMem k
  let size := readWord k.mem (inode + offDsize)
  .ok ({ k with mem := ramdiskDout sb.device k.mem buf addr size }, buf)

end SimpleOs
