import SimpleOs.Io.Stdio
import SimpleOs.Lib.Logged
import SimpleOs.Lib.Walk
import SimpleOs.Fs.Lookup

/-!
# What a lookup does

`romfs_namei` (fs/romfs.c:102-209) once more, with a log of everything that it does outside
its own variables: the blocks that it gets, the copy of the ramdisk, every byte that it puts
on the screen and the words of the inode. The number of rounds of its loop is a parameter,
so that a lookup that does not end has a log for every number of rounds.

The bytes on the screen are entered into the log and not put into the memory that the loop
reads: the log is that of the code as long as no output lands in the buffer or in the
kernel. `romfsNameiLog_eq` connects it to `romfsNamei`, which ends at the first output that
does.
-/

namespace SimpleOs

open ByteMem Logged

/-- An effect of `romfs_namei`. -/
inductive RomfsEffect where
  /-- `alloc_mem` has returned `p`. -/
  | alloc (p : Addr)
  /-- `dout` copies `size` bytes of the device to `dest`. -/
  | dout (dest : Addr) (size : BitVec 32)
  /-- Output. -/
  | screen (out : Output)
  /-- A word of the inode at `p` is stored, the one at the offset `off`. -/
  | store (p off : Addr)

/-- `s32_print(s, vb)` (io/k_stdio.c:19-30), for the string in memory. -/
def s32PrintAt (mem : Mem) : ℕ → Addr → Addr → Except Fault Output
  | 0, _, _ => .error .spin
  | fuel + 1, s, vb =>
    if mem s ≠ 0 then do
      let out ← s32PrintAt mem fuel (s + 1) (vb + 2)
      .ok (s32PutChar (mem s) vb ++ out)
    else .ok []

/-- What `romfs_namei` prints about a header that it passes (fs/romfs.c:187-200), and the
    next line. `clear_line` takes the line as a `u8`. -/
def passEntry (mem : Mem) (buf : Addr) (line : ℕ)
    (nextOffset fileSize fnContentOffset : BitVec 32) : Output × ℕ :=
  let out := clearLine (BitVec.ofNat 8 line) ++
    s32PrintStr (strBytes "next_offset:") (lineAddr line) ++
    s32PrintInt nextOffset (lineAddr line + 12 * 2) 16
  let line := line + 1
  if nextOffset ≠ 0 ∧ fnContentOffset ≠ 0 then
    (out ++ clearLine (BitVec.ofNat 8 line) ++
      s32PrintStr (strBytes "fn_con_off:") (lineAddr line) ++
      s32PrintInt fnContentOffset (lineAddr line + 12 * 2) 16 ++
      clearLine 0 ++ clearLine 1 ++ pDump mem (buf + fnContentOffset) fileSize, line + 1)
  else (out, line)

/-- The loop `do … while(next_offset)` (fs/romfs.c:149-202) with the line behind it
    (fs/romfs.c:204-206). -/
def scanEntriesLog (mem : Mem) (buf dir : Addr) :
    ℕ → ℕ → BitVec 32 → Logged RomfsEffect Fault (Option (BitVec 32))
  | 0, _, _ => lift (.error .spin)
  | fuel + 1, line, nextOffset => do
    let nextOffset ← lift (printRomfsEntry mem nextOffset buf)
    let fnOffset := nextOffset + 16
    let _ ← lift (sStrlen mem (buf + fnOffset))
    let cmp ← lift (sStrcmp mem (buf + fnOffset) dir)
    if cmp = 0 then pure (some nextOffset)
    else do
      let fileSize := be32tole32 (readWord mem (buf + nextOffset + 8))
      let fnContentOffset := if fileSize ≠ 0 then getNext16Boundary (fnOffset + fileSize) else 0
      let (out, line) := passEntry mem buf line nextOffset fileSize fnContentOffset
      emit (.screen out)
      if nextOffset ≠ 0 then scanEntriesLog mem buf dir fuel line nextOffset
      else do
        emit (.screen (clearLine 25 ++ s32PrintStr (strBytes "scan romfs ok") (lineAddr 25)))
        pure none

/-- The inode for the header at `nextOffset` (fs/romfs.c:160-173). -/
def fillInodeLog (sb : SuperBlock) (k : Machine) (buf dir : Addr) (nextOffset : BitVec 32) :
    Logged RomfsEffect Fault (Machine × Addr) := do
  let (inode, k) := allocMem k
  emit (.alloc inode)
  emit (.screen (clearLine 24 ++ s32PrintStr (strBytes "find fn:") (lineAddr 24)))
  let out ← lift (s32PrintAt k.mem (2 ^ 32) dir (lineAddr 24 + 13 * 2))
  emit (.screen out)
  emit (.store inode offFnName)
  let mem := writeWord k.mem (inode + offFnName) (buf + (nextOffset + 16))
  emit (.store inode offDsize)
  let mem := writeWord mem (inode + offDsize)
    (be32tole32 (readWord mem (buf + nextOffset + 8)))
  emit (.store inode offDaddr)
  let mem := writeWord mem (inode + offDaddr) nextOffset
  emit (.store inode offSb)
  let mem := writeWord mem (inode + offSb) sb.addr
  pure (freeMem { k with mem := mem } buf, inode)

/-- What `romfs_namei` does with the result of the loop. -/
def returnInodeLog (sb : SuperBlock) (k : Machine) (buf dir : Addr) :
    Option (BitVec 32) → Logged RomfsEffect Fault (Machine × Addr)
  | some nextOffset => fillInodeLog sb k buf dir nextOffset
  | none => pure (k, 0)

/-- `romfs_namei(sb, dir)` (fs/romfs.c:102-209), with at most `fuel` rounds of the inner
    loop. -/
def romfsNameiLog (fuel : ℕ) (sb : SuperBlock) (k : Machine) (dir : Addr) :
    Logged RomfsEffect Fault (Machine × Addr) := do
  let (buf, k) := allocMem k
  emit (.alloc buf)
  emit (.dout buf sb.device.storageSize)
  let k := { k with mem := ramdiskDout sb.device k.mem buf 0 sb.device.storageSize }
  if sb.device.storageSize = 0 then pure (k, 0)
  else do
    let volumeLen ← lift (sStrlen k.mem (buf + 16))
    let found ← scanEntriesLog k.mem buf dir fuel 7 (getNext16Boundary (volumeLen + 0x10))
    returnInodeLog sb k buf dir found

/-! ## The walk -/

section

variable (mem : Mem) (buf dir : Addr)

/-- The offset of the header behind the one at `off`. -/
def nextHeader (off : BitVec 32) : BitVec 32 := beWord mem (buf + off) &&& 0xfffffff0

/-- The header at `off` has the name `dir`. -/
def HasName (off : BitVec 32) : Prop :=
  ∃ s, IsStr mem (buf + (off + 16)) s ∧ IsStr mem dir s

/-- The loop ends at the header at `off`: it is the end mark, or has the name. -/
def EndsAt (off : BitVec 32) : Prop := off = 0 ∨ HasName mem buf dir off

/-- The offset that the loop begins with. -/
def firstOffset : BitVec 32 :=
  match sStrlen mem (buf + 16) with
  | .ok volumeLen => getNext16Boundary (volumeLen + 0x10)
  | .error _ => 0

/-- `fn_content_offset` of the header at `off`. -/
def contentOffset (off : BitVec 32) : BitVec 32 :=
  if beWord mem (buf + off + 8) ≠ 0 then
    getNext16Boundary (off + 16 + beWord mem (buf + off + 8))
  else 0

/-- `passEntry` for the header at `off`. -/
def passHeader (line : ℕ) (off : BitVec 32) : Output × ℕ :=
  passEntry mem buf line off (beWord mem (buf + off + 8)) (contentOffset mem buf off)

end

section

variable {mem : Mem} {buf dir : Addr} {fuel line : ℕ} {off : BitVec 32}

theorem printRomfsEntry_nul (hnul : ∃ z, mem z = 0) (off : BitVec 32) :
    printRomfsEntry mem off buf = .ok (nextHeader mem buf off) := by
  obtain ⟨s, hs⟩ := exists_isStr hnul (buf + (off + 16))
  unfold printRomfsEntry
  rw [sStrlen_eq hs]
  rfl

theorem sStrlen_nul (hnul : ∃ z, mem z = 0) (a : Addr) : ∃ n, sStrlen mem a = .ok n := by
  obtain ⟨s, hs⟩ := exists_isStr hnul a
  exact ⟨_, sStrlen_eq hs⟩

theorem sStrcmp_nul (hnul : ∃ z, mem z = 0) (buf dir : Addr) (off : BitVec 32) :
    ∃ r, sStrcmp mem (buf + (off + 16)) dir = .ok r ∧ (r = 0 ↔ HasName mem buf dir off) := by
  obtain ⟨s, hs⟩ := exists_isStr hnul (buf + (off + 16))
  obtain ⟨t, ht⟩ := exists_isStr hnul dir
  obtain ⟨r, hr, hiff⟩ := sStrcmp_eq hs ht
  refine ⟨r, hr, hiff.trans ?_⟩
  constructor
  · intro heq
    exact ⟨s, hs, heq ▸ ht⟩
  · intro ⟨u, hu, hu'⟩
    rw [hs.unique hu, ht.unique hu']

/-- A round of the loop. -/
theorem scanEntriesLog_round (hnul : ∃ z, mem z = 0) (fuel line : ℕ) :
    ∃ r, (r = 0 ↔ HasName mem buf dir (nextHeader mem buf off)) ∧
      scanEntriesLog mem buf dir (fuel + 1) line off =
        if r = (0 : BitVec 8) then pure (some (nextHeader mem buf off))
        else (do
          emit (.screen (passHeader mem buf line (nextHeader mem buf off)).1)
          if nextHeader mem buf off ≠ 0 then
            scanEntriesLog mem buf dir fuel (passHeader mem buf line (nextHeader mem buf off)).2
              (nextHeader mem buf off)
          else do
            emit (.screen (clearLine 25 ++ s32PrintStr (strBytes "scan romfs ok") (lineAddr 25)))
            pure none) := by
  obtain ⟨r, hr, hiff⟩ := sStrcmp_nul hnul buf dir (nextHeader mem buf off)
  obtain ⟨n, hn⟩ := sStrlen_nul hnul (buf + (nextHeader mem buf off + 16))
  refine ⟨r, hiff, ?_⟩
  rw [scanEntriesLog, lift_ok_bind (printRomfsEntry_nul hnul off)]
  dsimp only
  rw [lift_ok_bind hn, lift_ok_bind hr]
  rfl

/-- The header has the name. -/
theorem scanEntriesLog_found (hnul : ∃ z, mem z = 0)
    (h : HasName mem buf dir (nextHeader mem buf off)) :
    scanEntriesLog mem buf dir (fuel + 1) line off = pure (some (nextHeader mem buf off)) := by
  obtain ⟨r, hr, heq⟩ := scanEntriesLog_round hnul fuel line
  rw [heq, if_pos (hr.mpr h)]

/-- The header is passed. -/
theorem scanEntriesLog_passed (hnul : ∃ z, mem z = 0)
    (h : ¬ EndsAt mem buf dir (nextHeader mem buf off)) :
    scanEntriesLog mem buf dir (fuel + 1) line off = (do
      emit (.screen (passHeader mem buf line (nextHeader mem buf off)).1)
      scanEntriesLog mem buf dir fuel (passHeader mem buf line (nextHeader mem buf off)).2
        (nextHeader mem buf off)) := by
  obtain ⟨r, hr, heq⟩ := scanEntriesLog_round hnul fuel line
  obtain ⟨hne, hno⟩ := not_or.mp h
  rw [heq, if_neg (fun h => hno (hr.mp h)), if_pos hne]

/-- The end mark, which has not the name. -/
theorem scanEntriesLog_end (hnul : ∃ z, mem z = 0) (h : nextHeader mem buf off = 0)
    (hno : ¬ HasName mem buf dir 0) :
    scanEntriesLog mem buf dir (fuel + 1) line off =
      ⟨[.screen (passHeader mem buf line 0).1,
        .screen (clearLine 25 ++ s32PrintStr (strBytes "scan romfs ok") (lineAddr 25))],
        .ok none⟩ := by
  obtain ⟨r, hr, heq⟩ := scanEntriesLog_round hnul fuel line
  rw [h] at hr heq
  rw [heq, if_neg (fun h => hno (hr.mp h)), if_neg (not_not.mpr rfl)]
  rfl

theorem s32PrintAt_eq {s : List Byte} {a : Addr} (h : IsStr mem a s) (hfuel : s.length < fuel)
    (vb : Addr) : s32PrintAt mem fuel a vb = .ok (s32PrintStr s vb) := by
  refine h.walk (motive := fun fuel a s => ∀ vb, s32PrintAt mem fuel a vb =
    .ok (s32PrintStr s vb)) ?_ ?_ hfuel vb
  · intro fuel a hnul vb
    rw [s32PrintAt, if_neg (not_not.mpr hnul)]
    rfl
  · intro fuel a s hne _ ih vb
    rw [s32PrintAt, if_pos hne, ih]
    rfl

/-- Filling an inode, the log included. -/
theorem fillInodeLog_name {sb : SuperBlock} {k : Machine} {t : List Byte}
    (ht : IsStr k.mem dir t) :
    (fillInodeLog sb k buf dir off).log =
        [.alloc (allocMem k).1,
          .screen (clearLine 24 ++ s32PrintStr (strBytes "find fn:") (lineAddr 24)),
          .screen (s32PrintStr t (lineAddr 24 + 13 * 2)), .store (allocMem k).1 offFnName,
          .store (allocMem k).1 offDsize, .store (allocMem k).1 offDaddr,
          .store (allocMem k).1 offSb] ∧
      ∃ k', (fillInodeLog sb k buf dir off).result = .ok (k', (allocMem k).1) := by
  have hmem : (allocMem k).2.mem = k.mem := by rw [allocMem_snd]
  have hprint : s32PrintAt (allocMem k).2.mem (2 ^ 32) dir (lineAddr 24 + 13 * 2) =
      .ok (s32PrintStr t (lineAddr 24 + 13 * 2)) := by
    rw [hmem]
    exact s32PrintAt_eq ht ht.length_lt _
  rw [fillInodeLog]
  dsimp only
  rw [emit_bind, emit_bind, lift_ok_bind hprint]
  exact ⟨rfl, _, rfl⟩

/-- A lookup on a device that is not empty. -/
theorem romfsNameiLog_disk {sb : SuperBlock} {k : Machine}
    (hsize : sb.device.storageSize ≠ 0) (hnul : ∃ z, (loaded sb k).mem z = 0) (fuel : ℕ) :
    romfsNameiLog fuel sb k dir = (do
      emit (.alloc (allocMem k).1)
      emit (.dout (allocMem k).1 sb.device.storageSize)
      let found ← scanEntriesLog (loaded sb k).mem (allocMem k).1 dir fuel 7
        (firstOffset (loaded sb k).mem (allocMem k).1)
      returnInodeLog sb (loaded sb k) (allocMem k).1 dir found) := by
  obtain ⟨n, hn⟩ := sStrlen_nul hnul ((allocMem k).1 + 16)
  have hfirst : firstOffset (loaded sb k).mem (allocMem k).1 = getNext16Boundary (n + 0x10) := by
    rw [firstOffset, hn]
  rw [romfsNameiLog, hfirst]
  dsimp only
  rw [if_neg hsize]
  unfold loaded at hn
  rw [lift_ok_bind hn]
  rfl

/-- A lookup on an empty device. -/
theorem romfsNameiLog_empty {sb : SuperBlock} (hsize : sb.device.storageSize = 0) (k : Machine)
    (dir : Addr) (fuel : ℕ) :
    romfsNameiLog fuel sb k dir =
      ⟨[.alloc (allocMem k).1, .dout (allocMem k).1 sb.device.storageSize],
        .ok (loaded sb k, 0)⟩ := by
  rw [romfsNameiLog]
  dsimp only
  rw [if_pos hsize]
  rfl

/-! ## The same lookup -/

theorem scanEntriesLog_eq {o : Option (BitVec 32)}
    (h : scanEntries mem buf dir fuel line off = .ok o) (line' : ℕ) :
    (scanEntriesLog mem buf dir fuel line' off).result = .ok o := by
  induction fuel generalizing line line' off with
  | zero => cases h
  | succ fuel ih =>
    rw [scanEntries] at h
    obtain ⟨off', hoff, h⟩ := bind_eq_ok.mp h
    obtain ⟨len, hlen, h⟩ := bind_eq_ok.mp h
    obtain ⟨r, hr, h⟩ := bind_eq_ok.mp h
    rw [scanEntriesLog, lift_ok_bind hoff]
    dsimp only at h ⊢
    rw [lift_ok_bind hlen, lift_ok_bind hr]
    by_cases hzero : r = 0
    · rw [if_pos hzero] at h ⊢
      exact h
    · rw [if_neg hzero] at h ⊢
      obtain ⟨next, _, h⟩ := bind_eq_ok.mp h
      rw [emit_bind]
      by_cases hne : off' ≠ 0
      · rw [if_pos hne] at h ⊢
        exact ih h _
      · rw [if_neg hne] at h ⊢
        exact h

theorem s32PrintAt_ok {vb : ℕ} {a : Addr} (h : s32Print mem fuel a vb = .ok ()) (vb' : Addr) :
    ∃ out, s32PrintAt mem fuel a vb' = .ok out := by
  induction fuel generalizing a vb vb' with
  | zero => cases h
  | succ fuel ih =>
    rw [s32Print] at h
    rw [s32PrintAt]
    by_cases hnul : mem a ≠ 0
    · rw [if_pos hnul] at h ⊢
      obtain ⟨_, _, h⟩ := bind_eq_ok.mp h
      obtain ⟨out, hout⟩ := ih h (vb' + 2)
      rw [hout]
      exact ⟨_, rfl⟩
    · rw [if_neg hnul]
      exact ⟨[], rfl⟩

theorem fillInodeLog_eq {sb : SuperBlock} {k : Machine} {r : Machine × Addr}
    (h : fillInode sb k buf dir off = .ok r) : (fillInodeLog sb k buf dir off).result = .ok r := by
  rw [fillInode] at h
  obtain ⟨_, _, h⟩ := bind_eq_ok.mp h
  obtain ⟨_, hprint, h⟩ := bind_eq_ok.mp h
  have hat : ∃ out, s32PrintAt (allocMem k).2.mem (2 ^ 32) dir (lineAddr 24 + 13 * 2) = .ok out :=
    s32PrintAt_ok hprint _
  obtain ⟨out, hout⟩ := hat
  rw [fillInodeLog]
  dsimp only
  rw [emit_bind, emit_bind, lift_ok_bind hout]
  exact h

end

/-- A lookup that keeps its output off the kernel is the same here. -/
theorem romfsNameiLog_eq {sb : SuperBlock} {k : Machine} {dir : Addr} {r : Machine × Addr}
    (h : romfsNamei sb k dir = .ok r) :
    (romfsNameiLog (2 ^ 28 + 2) sb k dir).result = .ok r := by
  rw [romfsNamei] at h
  rw [romfsNameiLog]
  dsimp only at h ⊢
  rw [emit_bind, emit_bind]
  by_cases hzero : sb.device.storageSize = 0
  · rw [if_pos hzero] at h ⊢
    exact h
  · rw [if_neg hzero] at h ⊢
    obtain ⟨n, hn, h⟩ := bind_eq_ok.mp h
    obtain ⟨o, ho, h⟩ := bind_eq_ok.mp h
    rw [lift_ok_bind hn, bind_ok (scanEntriesLog_eq ho 7)]
    cases o with
    | none => exact h
    | some off => exact fillInodeLog_eq h

end SimpleOs
