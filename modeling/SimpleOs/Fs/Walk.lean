import SimpleOs.Fs.Effects

/-!
# Where a lookup ends

The loop of `romfs_namei` (fs/romfs.c:149-202) follows the offsets in the image. Nothing in
the code checks that they increase or that they stay inside the image: the loop ends when
they come to 0 or to a header with the name, and nowhere else. Each header that it passes
takes a line or two of output, so that a loop that does not end comes to the kernel's text.

* `scanEntriesLog_ok`, `scanEntries_ok`: the result of the loop.
* `namei_ends_iff`: which lookups end.
* `self_loop`: an image with a lookup that does not.
-/

namespace SimpleOs

open ByteMem Logged Walk

section

variable {mem : Mem} {buf dir : Addr}

/-- The header with the number `n` that is tested. -/
abbrev tested (mem : Mem) (buf : Addr) (off : BitVec 32) (n : ℕ) : BitVec 32 :=
  candidate (nextHeader mem buf) off n

/-- The loop finds the header with the number `n`. -/
def FoundAt (mem : Mem) (buf dir : Addr) (off : BitVec 32) (n : ℕ) : Prop :=
  Reaches (nextHeader mem buf) (EndsAt mem buf dir) off n ∧
    HasName mem buf dir (tested mem buf off n)

/-- The loop comes to the end mark behind `n` headers without having found one. -/
def AbsentAt (mem : Mem) (buf dir : Addr) (off : BitVec 32) (n : ℕ) : Prop :=
  Reaches (nextHeader mem buf) (EndsAt mem buf dir) off n ∧ tested mem buf off n = 0 ∧
    ¬ HasName mem buf dir (tested mem buf off n)

/-- The loop returns the first header with the name, or none when it comes to the end mark
    before. -/
theorem scanEntriesLog_ok (hnul : ∃ z, mem z = 0) (fuel line : ℕ) (off : BitVec 32)
    (o : Option (BitVec 32)) :
    (scanEntriesLog mem buf dir fuel line off).result = .ok o ↔
      ∃ n < fuel, Reaches (nextHeader mem buf) (EndsAt mem buf dir) off n ∧
        ((HasName mem buf dir (tested mem buf off n) ∧ o = some (tested mem buf off n)) ∨
          (tested mem buf off n = 0 ∧ ¬ HasName mem buf dir (tested mem buf off n) ∧
            o = none)) := by
  induction fuel generalizing line off with
  | zero =>
    constructor
    · exact fun h => by cases h
    · rintro ⟨n, hn, _⟩
      exact absurd hn (Nat.not_lt_zero n)
  | succ fuel ih =>
    rw [exists_reaches]
    simp only [tested, candidate_zero, candidate_succ]
    by_cases hname : HasName mem buf dir (nextHeader mem buf off)
    · rw [scanEntriesLog_found hnul hname, pure_result, Except.ok.injEq]
      constructor
      · exact fun h => .inl (.inl ⟨hname, h.symm⟩)
      · rintro ((⟨_, h⟩ | ⟨_, hno, _⟩) | ⟨hgo, _⟩)
        · exact h.symm
        · exact absurd hname hno
        · exact absurd (.inr hname) hgo
    · by_cases hzero : nextHeader mem buf off = 0
      · rw [hzero] at hname ⊢
        rw [scanEntriesLog_end hnul hzero hname, Except.ok.injEq]
        constructor
        · exact fun h => .inl (.inr ⟨rfl, hname, h.symm⟩)
        · rintro ((⟨hyes, _⟩ | ⟨_, _, h⟩) | ⟨hgo, _⟩)
          · exact absurd hyes hname
          · exact h.symm
          · exact absurd (.inl rfl) hgo
      · have hgo : ¬ EndsAt mem buf dir (nextHeader mem buf off) := not_or.mpr ⟨hzero, hname⟩
        rw [scanEntriesLog_passed hnul hgo, emit_bind, ih]
        constructor
        · exact fun h => .inr ⟨hgo, h⟩
        · rintro ((⟨hyes, _⟩ | ⟨h, _, _⟩) | ⟨_, h⟩)
          · exact absurd hyes hname
          · exact absurd h hzero
          · exact h

theorem scanEntriesLog_some (hnul : ∃ z, mem z = 0) {fuel : ℕ} (line : ℕ) {off x : BitVec 32} :
    (scanEntriesLog mem buf dir fuel line off).result = .ok (some x) ↔
      ∃ n < fuel, FoundAt mem buf dir off n ∧ x = tested mem buf off n := by
  rw [scanEntriesLog_ok hnul]
  constructor
  · rintro ⟨n, hn, hr, ⟨hname, hx⟩ | ⟨_, _, hx⟩⟩
    · exact ⟨n, hn, ⟨hr, hname⟩, Option.some.inj hx⟩
    · cases hx
  · rintro ⟨n, hn, ⟨hr, hname⟩, rfl⟩
    exact ⟨n, hn, hr, .inl ⟨hname, rfl⟩⟩

theorem scanEntriesLog_none (hnul : ∃ z, mem z = 0) {fuel : ℕ} (line : ℕ) {off : BitVec 32} :
    (scanEntriesLog mem buf dir fuel line off).result = .ok none ↔
      ∃ n < fuel, AbsentAt mem buf dir off n := by
  rw [scanEntriesLog_ok hnul]
  constructor
  · rintro ⟨n, hn, hr, ⟨_, hx⟩ | ⟨hzero, hno, _⟩⟩
    · cases hx
    · exact ⟨n, hn, hr, hzero, hno⟩
  · rintro ⟨n, hn, hr, hzero, hno⟩
    exact ⟨n, hn, hr, .inr ⟨hzero, hno, rfl⟩⟩

/-! ### The loop and its output -/

/-- What is printed about the header at `off`, with the line `line`, stays below the kernel. -/
def HeaderShown (mem : Mem) (buf : Addr) (line : ℕ) (off : BitVec 32) : Prop :=
  EntryShown line off (beWord mem (buf + off + 8)) (contentOffset mem buf off)

instance (mem : Mem) (buf : Addr) (line : ℕ) (off : BitVec 32) :
    Decidable (HeaderShown mem buf line off) := inferInstanceAs (Decidable (EntryShown ..))

/-- The line behind it. -/
def lineBehind (mem : Mem) (buf : Addr) (line : ℕ) (off : BitVec 32) : ℕ :=
  line + entryLines off (contentOffset mem buf off)

/-- What is printed about the headers that are tested up to the one with the number `n`, from
    the line `line` on, stays below the kernel. Nothing is printed about a header with the
    name. -/
def Shown (mem : Mem) (buf dir : Addr) : ℕ → ℕ → BitVec 32 → Prop
  | 0, line, off => HasName mem buf dir (nextHeader mem buf off) ∨
      HeaderShown mem buf line (nextHeader mem buf off)
  | n + 1, line, off => HeaderShown mem buf line (nextHeader mem buf off) ∧
      Shown mem buf dir n (lineBehind mem buf line (nextHeader mem buf off))
        (nextHeader mem buf off)

/-- There is no room for more lines. -/
theorem Shown.lt {n line : ℕ} {off : BitVec 32} (h : Shown mem buf dir n line off) :
    n = 0 ∨ line + n < 1845 := by
  induction n generalizing line off with
  | zero => exact .inl rfl
  | succ n ih =>
    obtain ⟨hfirst, hrest⟩ := h
    have hline := hfirst.offset
    have hbehind : line + 1 ≤ lineBehind mem buf line (nextHeader mem buf off) := by
      unfold lineBehind entryLines
      split_ifs <;> omega
    unfold videoBase kernelText at hline
    have hlt := ih hrest
    omega

/-- A round of the loop that writes its output. -/
theorem scanEntries_test (hnul : ∃ z, mem z = 0) (buf dir : Addr) (fuel line : ℕ)
    (off : BitVec 32) :
    ∃ r, (r = 0 ↔ HasName mem buf dir (nextHeader mem buf off)) ∧
      scanEntries mem buf dir (fuel + 1) line off =
        if r = (0 : BitVec 8) then .ok (some (nextHeader mem buf off))
        else if HeaderShown mem buf line (nextHeader mem buf off) then
          if nextHeader mem buf off ≠ 0 then
            scanEntries mem buf dir fuel (lineBehind mem buf line (nextHeader mem buf off))
              (nextHeader mem buf off)
          else .ok none
        else .error .overrun := by
  obtain ⟨r, hr, hiff⟩ := sStrcmp_nul hnul buf dir (nextHeader mem buf off)
  obtain ⟨n, hn⟩ := sStrlen_nul hnul (buf + (nextHeader mem buf off + 16))
  refine ⟨r, hiff, ?_⟩
  rw [scanEntries, printRomfsEntry_nul hnul off]
  simp only [bind, Except.bind]
  rw [hn, hr]
  dsimp only
  by_cases hzero : r = 0
  · rw [if_pos hzero, if_pos hzero]
  · have hentry : displayEntry line (nextHeader mem buf off)
        (be32tole32 (readWord mem (buf + nextHeader mem buf off + 8)))
        (if be32tole32 (readWord mem (buf + nextHeader mem buf off + 8)) ≠ 0 then
          getNext16Boundary (nextHeader mem buf off + 16 +
            be32tole32 (readWord mem (buf + nextHeader mem buf off + 8))) else 0) =
        if HeaderShown mem buf line (nextHeader mem buf off) then
          .ok (lineBehind mem buf line (nextHeader mem buf off)) else .error .overrun :=
      displayEntry_eq ..
    rw [if_neg hzero, if_neg hzero, hentry]
    by_cases hshown : HeaderShown mem buf line (nextHeader mem buf off)
    · rw [if_pos hshown, if_pos hshown]
    · rw [if_neg hshown, if_neg hshown]

/-- The loop returns what the walk does, if there is room for its output. -/
theorem scanEntries_ok (hnul : ∃ z, mem z = 0) (fuel line : ℕ) (off : BitVec 32)
    (o : Option (BitVec 32)) :
    scanEntries mem buf dir fuel line off = .ok o ↔
      ∃ n < fuel, Reaches (nextHeader mem buf) (EndsAt mem buf dir) off n ∧
        (Shown mem buf dir n line off ∧
        ((HasName mem buf dir (tested mem buf off n) ∧ o = some (tested mem buf off n)) ∨
          (tested mem buf off n = 0 ∧ ¬ HasName mem buf dir (tested mem buf off n) ∧
            o = none))) := by
  induction fuel generalizing line off with
  | zero =>
    constructor
    · exact fun h => by cases h
    · rintro ⟨n, hn, _⟩
      exact absurd hn (Nat.not_lt_zero n)
  | succ fuel ih =>
    obtain ⟨r, hr, hround⟩ := scanEntries_test hnul buf dir fuel line off
    rw [exists_reaches, hround]
    simp only [tested, candidate_zero, candidate_succ, Shown]
    by_cases hname : HasName mem buf dir (nextHeader mem buf off)
    · rw [if_pos (hr.mpr hname), Except.ok.injEq]
      constructor
      · exact fun h => .inl ⟨.inl hname, .inl ⟨hname, h.symm⟩⟩
      · rintro (⟨_, ⟨_, h⟩ | ⟨_, hno, _⟩⟩ | ⟨hgo, _⟩)
        · exact h.symm
        · exact absurd hname hno
        · exact absurd (.inr hname) hgo
    · rw [if_neg (fun h => hname (hr.mp h))]
      by_cases hshown : HeaderShown mem buf line (nextHeader mem buf off)
      · rw [if_pos hshown]
        by_cases hzero : nextHeader mem buf off = 0
        · rw [if_neg (not_not.mpr hzero), Except.ok.injEq]
          constructor
          · exact fun h => .inl ⟨.inr hshown, .inr ⟨hzero, hname, h.symm⟩⟩
          · rintro (⟨_, ⟨hyes, _⟩ | ⟨_, _, h⟩⟩ | ⟨hgo, _⟩)
            · exact absurd hyes hname
            · exact h.symm
            · exact absurd (.inl hzero) hgo
        · have hgo : ¬ EndsAt mem buf dir (nextHeader mem buf off) := not_or.mpr ⟨hzero, hname⟩
          rw [if_pos hzero, ih]
          constructor
          · rintro ⟨n, hn, hreach, hrest, hres⟩
            exact .inr ⟨hgo, n, hn, hreach, ⟨hshown, hrest⟩, hres⟩
          · rintro (⟨_, ⟨hyes, _⟩ | ⟨h, _, _⟩⟩ | ⟨_, n, hn, hreach, ⟨_, hrest⟩, hres⟩)
            · exact absurd hyes hname
            · exact absurd h hzero
            · exact ⟨n, hn, hreach, hrest, hres⟩
      · rw [if_neg hshown]
        constructor
        · exact fun h => by cases h
        · rintro (⟨hyes | hyes, _⟩ | ⟨_, _, _, _, ⟨hyes, _⟩, _⟩)
          · exact absurd hyes hname
          · exact absurd hyes hshown
          · exact absurd hyes hshown

end

/-! ## The lookup -/

section

variable {sb : SuperBlock} {k : Machine} {dir : Addr}

/-- The header with the number `n` that a lookup tests. -/
def testedOf (sb : SuperBlock) (k : Machine) (n : ℕ) : BitVec 32 :=
  tested (loaded sb k).mem (allocMem k).1 (firstOffset (loaded sb k).mem (allocMem k).1) n

/-- Behind the loop a lookup returns. -/
theorem returnInodeLog_ok (hnul : ∃ z, k.mem z = 0) (sb : SuperBlock) (buf dir : Addr)
    (found : Option (BitVec 32)) :
    ∃ k', (returnInodeLog sb k buf dir found).result =
      .ok (k', if found = none then 0 else (allocMem k).1) := by
  cases found with
  | none => exact ⟨k, rfl⟩
  | some off =>
    obtain ⟨t, ht⟩ := exists_isStr hnul dir
    exact (fillInodeLog_name ht).2

theorem romfsNameiLog_result (hsize : sb.device.storageSize ≠ 0)
    (hnul : ∃ z, (loaded sb k).mem z = 0) (fuel : ℕ) (r : Machine × Addr) :
    (romfsNameiLog fuel sb k dir).result = .ok r ↔
      ∃ found, (scanEntriesLog (loaded sb k).mem (allocMem k).1 dir fuel 7
          (firstOffset (loaded sb k).mem (allocMem k).1)).result = .ok found ∧
        (returnInodeLog sb (loaded sb k) (allocMem k).1 dir found).result = .ok r := by
  rw [romfsNameiLog_disk hsize hnul, emit_bind, emit_bind]
  exact bind_result

/-- What is printed up to the header with the number `n`, and of the name when it is found
    there, stays below the kernel. -/
def ShownTo (sb : SuperBlock) (k : Machine) (dir : Addr) (n : ℕ) : Prop :=
  Shown (loaded sb k).mem (allocMem k).1 dir n 7 (firstOffset (loaded sb k).mem (allocMem k).1) ∧
    (HasName (loaded sb k).mem (allocMem k).1 dir (testedOf sb k n) →
      ∀ s, IsStr (loaded sb k).mem dir s → NameShown s)

/-- The header with the number `n` is the first one that ends a lookup. -/
def FirstEnd (sb : SuperBlock) (k : Machine) (dir : Addr) (n : ℕ) : Prop :=
  EndsAt (loaded sb k).mem (allocMem k).1 dir (testedOf sb k n) ∧
    ∀ i < n, ¬ EndsAt (loaded sb k).mem (allocMem k).1 dir (testedOf sb k i)

theorem romfsNamei_disk (hsize : sb.device.storageSize ≠ 0)
    (hnul : ∃ z, (loaded sb k).mem z = 0) :
    romfsNamei sb k dir = (do
      match ← scanEntries (loaded sb k).mem (allocMem k).1 dir (2 ^ 28 + 2) 7
        (firstOffset (loaded sb k).mem (allocMem k).1) with
      | some nextOffset => fillInode sb (loaded sb k) (allocMem k).1 dir nextOffset
      | none => .ok (loaded sb k, 0)) := by
  obtain ⟨n, hn⟩ := sStrlen_nul hnul ((allocMem k).1 + 16)
  have hfirst : firstOffset (loaded sb k).mem (allocMem k).1 = getNext16Boundary (n + 0x10) := by
    rw [firstOffset, hn]
  unfold romfsNamei
  rw [hfirst]
  dsimp only
  rw [if_neg hsize]
  unfold loaded at hn
  rw [hn]
  rfl

end

/-! ### Images -/

/-- The booted machine with the bytes on the device and a name to look up. -/
def diskMachine (bytes name : List Byte) : Machine :=
  { bootMachine sampleImage with mem := romMem bytes name }

/-- A device with `n` bytes. -/
def diskSb (n : BitVec 32) : SuperBlock := ⟨0x180000, 0x200000, n⟩

theorem diskMachine_buf (bytes name : List Byte) :
    (allocMem (diskMachine bytes name)).1 = 0x1000000 := by
  have hfind : findFreeArea 0 = (some 0, 1) := by decide
  rw [allocMem, show (diskMachine bytes name).memoryUsed = 0 from rfl, hfind]
  rfl

/-- The memory behind the copy. -/
theorem diskMachine_loaded (n : BitVec 32) (bytes name : List Byte) :
    (loaded (diskSb n) (diskMachine bytes name)).mem =
      copy (romMem bytes name) 0x1000000 0x200000 n.toNat := by
  have hdev : (0 : Addr) + (diskSb n).device.startPos = 0x200000 := BitVec.zero_add _
  unfold loaded ramdiskDout pAsmMemcpy
  dsimp only
  rw [diskMachine_buf, allocMem_snd, hdev]
  rfl

/-- The volume name `rom` puts the first header at 32. -/
theorem firstOffset_rom {mem : Mem} {buf : Addr} (h : IsStr mem (buf + 16) romName) :
    firstOffset mem buf = 32 := by
  rw [firstOffset, sStrlen_eq h]
  decide

theorem testedOf_zero (sb : SuperBlock) (k : Machine) :
    testedOf sb k 0 = nextHeader (loaded sb k).mem (allocMem k).1
      (firstOffset (loaded sb k).mem (allocMem k).1) := rfl

/-- The memory behind the copy of the sample image. -/
def sampleMem (name : List Byte) : Mem :=
  copy (romMem sampleRomBytes name) 0x1000000 0x200000 192

theorem sampleMem_eq (name : List Byte) :
    (loaded (diskSb 192) (diskMachine sampleRomBytes name)).mem = sampleMem name :=
  diskMachine_loaded 192 sampleRomBytes name

theorem sampleMem_echo :
    IsStr (sampleMem echoName) (0x1000000 + 16) romName ∧
      nextHeader (sampleMem echoName) 0x1000000 32 = 64 ∧
      IsStr (sampleMem echoName) (0x1000000 + (64 + 16)) echoName ∧
      IsStr (sampleMem echoName) 0x300000 echoName := by decide

/-- `echo` is the header that a lookup tests first. -/
theorem sampleMem_found :
    testedOf (diskSb 192) (diskMachine sampleRomBytes echoName) 0 = 64 ∧
      HasName (loaded (diskSb 192) (diskMachine sampleRomBytes echoName)).mem
        (allocMem (diskMachine sampleRomBytes echoName)).1 0x300000 64 := by
  obtain ⟨hvol, hnext, hecho, hdir⟩ := sampleMem_echo
  rw [testedOf_zero, sampleMem_eq, diskMachine_buf, firstOffset_rom hvol]
  exact ⟨hnext, echoName, hecho, hdir⟩

/-- The volume `rom` with the directory `.`, whose `nextfh` is its own offset. -/
def loopBytes : List Byte :=
  romMagic ++ (bytesOf 64).reverse ++ bytesOf 0 ++ romName ++ List.replicate 13 0 ++
    dumpHeader 0x29 32 0 [0x2e]

/-- The memory behind the copy of `loopBytes`. -/
def loopMem : Mem := copy (romMem loopBytes echoName) 0x1000000 0x200000 64

theorem loopMem_volume : IsStr loopMem (0x1000000 + 16) romName := by decide

theorem loopMem_next : nextHeader loopMem 0x1000000 32 = 32 := by decide

theorem loopMem_dot : IsStr loopMem (0x1000000 + (32 + 16)) [0x2e] := by decide

theorem loopMem_dir : IsStr loopMem 0x300000 echoName := by decide

theorem loopMem_eq : (loaded (diskSb 64) (diskMachine loopBytes echoName)).mem = loopMem :=
  diskMachine_loaded 64 loopBytes echoName

theorem loopMem_tested (n : ℕ) :
    testedOf (diskSb 64) (diskMachine loopBytes echoName) n = 32 := by
  unfold testedOf tested candidate
  rw [loopMem_eq, diskMachine_buf, firstOffset_rom loopMem_volume]
  exact Function.iterate_fixed loopMem_next (n + 1)

end SimpleOs
