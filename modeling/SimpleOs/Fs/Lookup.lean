import SimpleOs.Kernel.Messages
import SimpleOs.Fs.Image

/-!
# Looking up a name

`romfs_namei` (fs/romfs.c:102-209) walks the root directory with a loop that
advances before it tests. It begins with the offset behind the volume name, so
that the first header is never tested, and it ends with the offset 0, at which
it tests the volume name. The offset it begins with is rounded up from the
length of the volume name without its terminator, and the length is a `u8`.

* `scanEntries_eq`: which header the loop finds.
* `namei_exact`: when the inode that is returned is the right one.
-/

namespace SimpleOs

open ByteMem Bitmap

/-! ## The loop -/

/-- What is printed about a header that is passed, with the line `line`: its offset, and, when
    there is a file behind it, the offset of its contents and the bytes of the file. All of it
    stays below the kernel. -/
structure EntryShown (line : ℕ) (off size content : BitVec 32) : Prop where
  offset : videoBase + 160 * line + 24 + 2 * (Nat.toDigits 16 off.toNat).length ≤ kernelText
  contents : off ≠ 0 ∧ content ≠ 0 →
    videoBase + 160 * (line + 1) + 24 + 2 * (Nat.toDigits 16 content.toNat).length ≤ kernelText
  dump : off ≠ 0 ∧ content ≠ 0 → videoBase + 6 * size.toInt.toNat ≤ kernelText

instance (line : ℕ) (off size content : BitVec 32) : Decidable (EntryShown line off size content) :=
  decidable_of_iff (_ ∧ _ ∧ _) ⟨fun h => ⟨h.1, h.2.1, h.2.2⟩, fun h => ⟨h.1, h.2, h.3⟩⟩

/-- The lines that this takes. -/
def entryLines (off content : BitVec 32) : ℕ := if off ≠ 0 ∧ content ≠ 0 then 2 else 1

theorem displayEntry_eq (line : ℕ) (off size content : BitVec 32) :
    displayEntry line off size content =
      if EntryShown line off size content then .ok (line + entryLines off content)
      else .error .overrun := by
  have hdump : 2 * (3 * size.toInt.toNat) = 6 * size.toInt.toNat := by omega
  unfold displayEntry entryLines s32PrintHex pDumpU8
  by_cases hoff : videoBase + 160 * line + 24 + 2 * (Nat.toDigits 16 off.toNat).length ≤ kernelText
  · rw [display_eq (by omega), display_eq hoff]
    simp only [bind, Except.bind]
    by_cases h : off ≠ 0 ∧ content ≠ 0
    · rw [if_pos h, if_pos h]
      by_cases hcon : videoBase + 160 * (line + 1) + 24 +
          2 * (Nat.toDigits 16 content.toNat).length ≤ kernelText
      · rw [display_eq (by omega), display_eq hcon]
        dsimp only
        by_cases hbytes : videoBase + 6 * size.toInt.toNat ≤ kernelText
        · rw [display_eq (by omega), if_pos ⟨hoff, fun _ => hcon, fun _ => hbytes⟩]
        · rw [display_error (by omega), if_neg fun hs => hbytes (hs.dump h)]
      · have hno : ¬ EntryShown line off size content := fun hs => hcon (hs.contents h)
        rw [if_neg hno, display_error hcon]
        unfold display
        split_ifs <;> rfl
    · rw [if_neg h, if_neg h, if_pos ⟨hoff, fun hc => absurd hc h, fun hc => absurd hc h⟩]
  · have hno : ¬ EntryShown line off size content := fun hs => hoff hs.offset
    rw [if_neg hno, display_error hoff]
    unfold display
    simp only [bind, Except.bind]
    split_ifs <;> rfl

/-- `fn_content_offset` of a header. -/
def RomHeader.contentOffset (h : RomHeader) : BitVec 32 :=
  if h.size ≠ 0 then getNext16Boundary (BitVec.ofNat 32 (h.offset + 16) + h.size) else 0

/-- The output about the headers that a walk over `t` passes stays below the kernel. Where it
    finds no name, the end mark gets a line of its own. -/
def EntriesShown (volume name : List Byte) : ℕ → List RomHeader → Prop
  | line, [] => volume ≠ name → EntryShown line 0 0 0
  | line, h :: t => h.name ≠ name →
      EntryShown line (BitVec.ofNat 32 h.offset) h.size h.contentOffset ∧
        EntriesShown volume name (line + entryLines (BitVec.ofNat 32 h.offset) h.contentOffset) t

instance decidableEntriesShown (volume name : List Byte) :
    ∀ (line : ℕ) (t : List RomHeader), Decidable (EntriesShown volume name line t)
  | line, [] => inferInstanceAs (Decidable (volume ≠ name → EntryShown line 0 0 0))
  | line, h :: t =>
    have := decidableEntriesShown volume name
      (line + entryLines (BitVec.ofNat 32 h.offset) h.contentOffset) t
    inferInstanceAs (Decidable (h.name ≠ name →
      EntryShown line (BitVec.ofNat 32 h.offset) h.size h.contentOffset ∧
        EntriesShown volume name (line + entryLines (BitVec.ofNat 32 h.offset) h.contentOffset) t))

/-- The offset that a walk over `t` finds: that of the first header with the
    name, or 0 when this is the volume name. -/
def walk (volume name : List Byte) (t : List RomHeader) : Option (BitVec 32) :=
  match t.find? fun h => h.name = name with
  | some h => some (BitVec.ofNat 32 h.offset)
  | none => if volume = name then some 0 else none

section

variable {mem : Mem} {buf dir : Addr} {size : ℕ} {name : List Byte}

/-- From a position whose next offset is `next`, and behind which a name stands. -/
theorem printRomfsEntry_eq {off : ℕ} {s : List Byte} {next : BitVec 32}
    (hs : IsStr mem (buf + BitVec.ofNat 32 (off + 16)) s)
    (hnext : beWord mem (buf + BitVec.ofNat 32 off) &&& 0xfffffff0 = next) :
    printRomfsEntry mem (BitVec.ofNat 32 off) buf = .ok next := by
  unfold printRomfsEntry
  rw [show BitVec.ofNat 32 off + 16 = BitVec.ofNat 32 (off + 16) from (BitVec.ofNat_add ..).symm,
    sStrlen_eq hs, ← hnext]
  rfl

/-- One round of the loop, which moves on to the offset `next`. -/
theorem scanEntries_round (fuel line : ℕ) {off : ℕ} (next : ℕ) {s s' : List Byte} {size : BitVec 32}
    (hdir : IsStr mem dir name)
    (hs : IsStr mem (buf + BitVec.ofNat 32 (off + 16)) s)
    (hnext : beWord mem (buf + BitVec.ofNat 32 off) &&& 0xfffffff0 = BitVec.ofNat 32 next)
    (hs' : IsStr mem (buf + BitVec.ofNat 32 (next + 16)) s')
    (hsize : beWord mem (buf + BitVec.ofNat 32 next + 8) = size) :
    scanEntries mem buf dir (fuel + 1) line (BitVec.ofNat 32 off) =
      let h : RomHeader := ⟨next, s', size⟩
      if s' = name then .ok (some (BitVec.ofNat 32 next))
      else if EntryShown line (BitVec.ofNat 32 next) size h.contentOffset then
        if BitVec.ofNat 32 next ≠ 0 then
          scanEntries mem buf dir fuel
            (line + entryLines (BitVec.ofNat 32 next) h.contentOffset) (BitVec.ofNat 32 next)
        else .ok none
      else .error .overrun := by
  obtain ⟨r, hr, hiff⟩ := sStrcmp_eq hs' hdir
  have hadd : BitVec.ofNat 32 next + 16 = BitVec.ofNat 32 (next + 16) := (BitVec.ofNat_add ..).symm
  unfold beWord at hsize
  rw [scanEntries, printRomfsEntry_eq hs hnext]
  simp only [bind, Except.bind]
  rw [hadd, sStrlen_eq hs', hr]
  dsimp only
  by_cases heq : s' = name
  · rw [if_pos (hiff.mpr heq), if_pos heq]
  · rw [if_neg (fun h => heq (hiff.mp h)), if_neg heq, displayEntry_eq, hsize]
    unfold RomHeader.contentOffset
    dsimp only
    by_cases hshown : EntryShown line (BitVec.ofNat 32 next) size
        (if size ≠ 0 then getNext16Boundary (BitVec.ofNat 32 (next + 16) + size) else 0)
    · rw [if_pos hshown, if_pos hshown]
    · rw [if_neg hshown, if_neg hshown]

theorem ofNat_ne_zero {n : ℕ} (hpos : 0 < n) (hlt : n < 2 ^ 32) : BitVec.ofNat 32 n ≠ 0 := by
  intro h
  have hnat := congrArg BitVec.toNat h
  rw [BitVec.toNat_ofNat, Nat.mod_eq_of_lt hlt] at hnat
  have hzero : (0 : BitVec 32).toNat = 0 := rfl
  omega

/-- What is printed at the end mark. -/
theorem entryShown_end {line : ℕ} {off size content : BitVec 32} (h : off = 0) :
    EntryShown line off size content ↔ EntryShown line 0 0 0 := by
  subst h
  have hno : ∀ c : BitVec 32, ¬ ((0 : BitVec 32) ≠ 0 ∧ c ≠ 0) := fun _ h => h.1 rfl
  exact ⟨fun h => ⟨h.offset, fun hc => absurd hc (hno _), fun hc => absurd hc (hno _)⟩,
    fun h => ⟨h.offset, fun hc => absurd hc (hno _), fun hc => absurd hc (hno _)⟩⟩

/-- The round that tests the end mark as if it were a header. -/
theorem scanEntries_end {volume : List Byte} (fuel line : ℕ) {off : ℕ} {s : List Byte}
    (hdir : IsStr mem dir name) (hs : IsStr mem (buf + BitVec.ofNat 32 (off + 16)) s)
    (hnext : beWord mem (buf + BitVec.ofNat 32 off) &&& 0xfffffff0 = BitVec.ofNat 32 0)
    (hvol : IsStr mem (buf + BitVec.ofNat 32 16) volume) :
    scanEntries mem buf dir (fuel + 1) line (BitVec.ofNat 32 off) =
      if EntriesShown volume name line [] then .ok (walk volume name []) else .error .overrun := by
  rw [scanEntries_round fuel line 0 hdir hs hnext hvol rfl]
  dsimp only
  unfold EntriesShown walk
  by_cases heq : volume = name
  · rw [if_pos heq, if_pos (fun hne => absurd heq hne)]
    dsimp only [List.find?_nil]
    rw [if_pos heq]
    rfl
  · have hmark : EntryShown line (BitVec.ofNat 32 0) (beWord mem (buf + BitVec.ofNat 32 0 + 8))
        (RomHeader.contentOffset ⟨0, volume, beWord mem (buf + BitVec.ofNat 32 0 + 8)⟩) ↔
        EntryShown line 0 0 0 := entryShown_end rfl
    rw [if_neg heq, if_neg (c := BitVec.ofNat 32 0 ≠ 0) (by decide)]
    by_cases hshown : EntryShown line 0 0 0
    · rw [if_pos (hmark.mpr hshown), if_pos fun _ => hshown]
      dsimp only [List.find?_nil]
      rw [if_neg heq]
    · rw [if_neg (fun h => hshown (hmark.mp h)), if_neg fun h => hshown (h heq)]

/-- The loop, from the first header of a chain on. -/
theorem scanEntries_chain {volume : List Byte} (hdir : IsStr mem dir name)
    (hvol : IsField mem buf size 16 volume) (hfits : size ≤ blockSize) {h : RomHeader}
    {t : List RomHeader} (hc : IsChain mem buf size h t) {fuel : ℕ} (line : ℕ)
    (hfuel : t.length < fuel) :
    scanEntries mem buf dir fuel line (BitVec.ofNat 32 h.offset) =
      if EntriesShown volume name line t then .ok (walk volume name t) else .error .overrun := by
  induction t generalizing h fuel line with
  | nil =>
    obtain ⟨fuel, rfl⟩ : ∃ n, fuel = n + 1 := ⟨fuel - 1, by simp at hfuel; omega⟩
    have hh : IsHeader mem buf size h 0 := hc
    exact scanEntries_end fuel line hdir hh.name.str hh.nextfh hvol.str
  | cons h' t ih =>
    obtain ⟨hlt, hh, ht⟩ := hc
    rw [List.length_cons] at hfuel
    obtain ⟨fuel, rfl⟩ : ∃ n, fuel = n + 1 := ⟨fuel - 1, by omega⟩
    obtain ⟨next, hh', _⟩ := ht.head
    have hoff := hh'.name.length_lt
    have hne : BitVec.ofNat 32 h'.offset ≠ 0 := by
      unfold blockSize at hfits
      exact ofNat_ne_zero (by omega) (by omega)
    rw [scanEntries_round fuel line h'.offset hdir hh.name.str hh.nextfh hh'.name.str hh'.dsize]
    dsimp only
    rw [if_pos hne, ih ht _ (by omega : t.length < fuel)]
    unfold EntriesShown
    by_cases heq : h'.name = name
    · have hwalk : walk volume name (h' :: t) = some (BitVec.ofNat 32 h'.offset) := by
        rw [walk, List.find?_cons_of_pos (by simpa using heq)]
      rw [if_pos heq, if_pos fun hne => absurd heq hne, hwalk]
    · have hwalk : walk volume name (h' :: t) = walk volume name t := by
        rw [walk, walk, List.find?_cons_of_neg (by simpa using heq)]
      rw [if_neg heq, hwalk]
      by_cases hshown : EntryShown line (BitVec.ofNat 32 h'.offset) h'.size h'.contentOffset
      · rw [if_pos hshown]
        by_cases hpassed : EntriesShown volume name
            (line + entryLines (BitVec.ofNat 32 h'.offset) h'.contentOffset) t
        · rw [if_pos hpassed, if_pos fun _ => ⟨hshown, hpassed⟩]
        · rw [if_neg hpassed, if_neg fun h => hpassed (h heq).2]
      · rw [if_neg hshown, if_neg fun h => hshown (h heq).1]

/-- The headers that the loop can find. -/
def RomImage.tested (r : RomImage) : List RomHeader :=
  if r.volume.length % 16 = 0 then [] else r.rest

theorem RomImage.Stored.offset_lt {r : RomImage} (h : r.Stored mem buf size) :
    r.first.offset + 16 < size := by
  obtain ⟨_, hh, _⟩ := h.chain.head
  have := hh.name.length_lt
  omega

/-- No offset in an image has a byte in its high end. -/
theorem RomImage.Stored.first_byte {r : RomImage} (h : r.Stored mem buf size) :
    mem (buf + BitVec.ofNat 32 r.first.offset) = 0 := by
  obtain ⟨next, hh, hnext⟩ := h.chain.head
  have hsize := h.size_le
  unfold blockSize at hsize
  have hfield := hh.nextfh
  rw [beWord_eq] at hfield
  apply BitVec.eq_of_getLsbD_eq
  intro i hi
  have hbit := congrArg (fun w => w.getLsbD (24 + i)) hfield
  have hmask : (0xfffffff0 : BitVec 32).getLsbD (24 + i) = true := by
    have : ∀ j < 8, (0xfffffff0 : BitVec 32).getLsbD (24 + j) = true := by decide
    exact this i hi
  have hhigh : (BitVec.ofNat 32 next).getLsbD (24 + i) = false := by
    rw [BitVec.getLsbD_ofNat]
    have hlt : next < 2 ^ (24 + i) := by
      have : 2 ^ 24 ≤ 2 ^ (24 + i) := Nat.pow_le_pow_right (by omega) (by omega)
      omega
    rw [Nat.testBit_lt_two_pow hlt, Bool.and_false]
  simp only [BitVec.getLsbD_and, hmask, Bool.and_true, hhigh, BitVec.getLsbD_append] at hbit
  rw [if_neg (by omega), if_neg (by omega), if_neg (by omega),
    show 24 + i - 8 - 8 - 8 = i by omega] at hbit
  rw [hbit]
  exact BitVec.getLsbD_zero.symm

/-- A chain is shorter than the image. -/
theorem IsChain.length_lt {h : RomHeader} {t : List RomHeader} (hc : IsChain mem buf size h t) :
    h.offset + t.length < size := by
  induction t generalizing h with
  | nil =>
    have hlt := (show IsHeader mem buf size h 0 from hc).name.length_lt
    rw [List.length_nil]
    omega
  | cons h' t ih =>
    have hrest := ih hc.2.2
    have hlt := hc.1
    rw [List.length_cons]
    omega

/-- The loop from the offset that `romfs_namei` begins with, for a volume name
    whose length a `u8` holds. -/
theorem scanEntries_eq {r : RomImage} (h : r.Stored mem buf size) (hlen : r.volume.length < 256)
    (hdir : IsStr mem dir name) :
    scanEntries mem buf dir (2 ^ 28 + 2) 7
      (getNext16Boundary (BitVec.ofNat 32 (r.volume.length % 256) + 0x10)) =
      if EntriesShown r.volume name 7 r.tested then .ok (walk r.volume name r.tested)
      else .error .overrun := by
  have hfuel : r.rest.length < 2 ^ 28 + 2 := by
    have hchain := h.chain.length_lt
    have hsize := h.size_le
    unfold blockSize at hsize
    omega
  have hstart : getNext16Boundary (BitVec.ofNat 32 (r.volume.length % 256) + 0x10) =
      BitVec.ofNat 32 (pad16 (r.volume.length + 16)) := by
    rw [Nat.mod_eq_of_lt hlen, ← getNext16Boundary_eq (by omega)]
    exact congrArg _ (BitVec.ofNat_add ..).symm
  rw [hstart]
  unfold RomImage.tested
  by_cases hmod : r.volume.length % 16 = 0
  · -- the offset is that of the terminator of the volume name, and of its padding
    have hpad : pad16 (r.volume.length + 1) = r.volume.length + 16 := by
      unfold pad16
      omega
    have hfirst := h.first
    rw [hpad] at hfirst
    have hnul : ∀ i < 16, mem (buf + BitVec.ofNat 32 (r.volume.length + 16 + i)) = 0 := by
      intro i hi
      rw [show r.volume.length + 16 + i = 16 + (r.volume.length + i) by omega]
      exact h.volume.pad _ (by omega) (by omega)
    have hnext : beWord mem (buf + BitVec.ofNat 32 (r.volume.length + 16)) &&& 0xfffffff0 =
        BitVec.ofNat 32 0 := by
      have h0 := hnul 0 (by omega)
      have h1 := hnul 1 (by omega)
      have h2 := hnul 2 (by omega)
      have h3 := hnul 3 (by omega)
      rw [← add_ofNat_add] at h1 h2 h3
      rw [beWord_eq, show mem (buf + BitVec.ofNat 32 (r.volume.length + 16)) = 0 from h0,
        show (1 : Addr) = BitVec.ofNat 32 1 from rfl, show (2 : Addr) = BitVec.ofNat 32 2 from rfl,
        show (3 : Addr) = BitVec.ofNat 32 3 from rfl, h1, h2, h3]
      decide
    have hstr : IsStr mem (buf + BitVec.ofNat 32 (r.volume.length + 16 + 16)) [] := by
      have hbyte := h.first_byte
      rw [hfirst] at hbyte
      rw [show r.volume.length + 16 + 16 = 16 + (r.volume.length + 16) by omega]
      exact hbyte
    rw [show pad16 (r.volume.length + 16) = r.volume.length + 16 by unfold pad16; omega,
      if_pos hmod]
    exact scanEntries_end _ 7 hdir hstr hnext h.volume.str
  · have hfirst : pad16 (r.volume.length + 16) = r.first.offset := by
      rw [h.first]
      unfold pad16
      omega
    rw [if_neg hmod, hfirst]
    exact scanEntries_chain hdir h.volume h.size_le h.chain 7 hfuel

end

/-! ## The inode -/

/-- The inode of the header at `off` has been written at `inode`. -/
structure Filled (k : Machine) (buf inode : Addr) (off : BitVec 32) (k' : Machine) : Prop where
  daddr : readWord k'.mem (inode + offDaddr) = off
  dsize : Apart 4 inode (buf + off + 8) →
    readWord k'.mem (inode + offDsize) = beWord k.mem (buf + off + 8)
  frame : ∀ a, ¬ InBlock inode 20 a → k'.mem a = k.mem a

theorem freeMem_mem (k : Machine) (a : Addr) : (freeMem k a).mem = k.mem := by
  unfold freeMem
  split_ifs
  · rfl
  · rfl

theorem freeMem_mmStart (k : Machine) (a : Addr) : (freeMem k a).mmStart = k.mmStart := by
  unfold freeMem
  split_ifs
  · rfl
  · rfl

/-- The name of the header that has been found is put behind `find fn:`. -/
def NameShown (name : List Byte) : Prop := videoBase + 160 * 24 + 26 + 2 * name.length ≤ kernelText

instance (name : List Byte) : Decidable (NameShown name) := inferInstanceAs (Decidable (_ ≤ _))

/-- Filling an inode: the pointer is what `alloc_mem` returned, null or not. -/
theorem fillInode_eq (sb : SuperBlock) {k : Machine} (buf : Addr) {dir : Addr}
    (off : BitVec 32) {name : List Byte} (hname : IsStr k.mem dir name) (hvis : NameShown name) :
    ∃ k', fillInode sb k buf dir off = .ok (k', (allocMem k).1) ∧
      Filled k buf (allocMem k).1 off k' := by
  have hmem : (allocMem k).2.mem = k.mem := by rw [allocMem_snd]
  have hprint : s32Print k.mem (2 ^ 32) dir (videoBase + 160 * 24 + 13 * 2) = .ok () := by
    rw [s32Print_eq hname hname.length_lt (by decide)]
    exact display_eq hvis
  set inode := (allocMem k).1 with hinode
  set m1 := writeWord k.mem (inode + offFnName) (buf + (off + 16)) with hm1
  set m2 := writeWord m1 (inode + offDsize) (be32tole32 (readWord m1 (buf + off + 8))) with hm2
  set m3 := writeWord m2 (inode + offDaddr) off with hm3
  set m4 := writeWord m3 (inode + offSb) sb.addr with hm4
  refine ⟨freeMem { (allocMem k).2 with mem := m4 } buf, ?_, ?_, ?_, ?_⟩
  · unfold fillInode
    dsimp only
    rw [hmem, display_eq (by decide), hprint]
    rfl
  · rw [freeMem_mem]
    dsimp only
    rw [hm4, readWord_writeWord_ne (apart_offsets _ _ _ (by decide)), hm3, readWord_writeWord]
  · intro hapart
    have hsize : readWord m1 (buf + off + 8) = readWord k.mem (buf + off + 8) := by
      rw [hm1, show inode + offFnName = inode from BitVec.add_zero _,
        readWord_writeWord_ne hapart]
    rw [freeMem_mem]
    dsimp only
    rw [hm4, readWord_writeWord_ne (apart_offsets _ _ _ (by decide)), hm3,
      readWord_writeWord_ne (apart_offsets _ _ _ (by decide)), hm2, readWord_writeWord, hsize]
    rfl
  · intro a ha
    have hout : ∀ d : Addr, d.toNat + 4 ≤ 20 → ¬ InBlock (inode + d) 4 a := by
      intro d hd
      unfold InBlock at *
      bv_omega
    rw [freeMem_mem]
    dsimp only
    rw [hm4, writeWord_out (hout offSb (by decide)), hm3, writeWord_out (hout offDaddr (by decide)),
      hm2, writeWord_out (hout offDsize (by decide)), hm1,
      writeWord_out (hout offFnName (by decide))]

/-- A name that is too long for the screen. -/
theorem fillInode_error (sb : SuperBlock) {k : Machine} (buf : Addr) {dir : Addr}
    (off : BitVec 32) {name : List Byte} (hname : IsStr k.mem dir name) (hvis : ¬ NameShown name) :
    fillInode sb k buf dir off = .error .overrun := by
  have hmem : (allocMem k).2.mem = k.mem := by rw [allocMem_snd]
  have hprint : s32Print k.mem (2 ^ 32) dir (videoBase + 160 * 24 + 13 * 2) = .error .overrun := by
    rw [s32Print_eq hname hname.length_lt (by decide)]
    exact display_error hvis
  unfold fillInode
  dsimp only
  rw [hmem, display_eq (by decide), hprint]
  rfl

/-! ## The lookup -/

/-- What a lookup starts from: the image on the device, the name in memory, the
    buffer that `alloc_mem` will return apart from both, and all of it above the
    screen. -/
structure NameiLayout (sb : SuperBlock) (r : RomImage) (name : List Byte) (k : Machine)
    (dir : Addr) : Prop where
  fits : Fits k.mmStart
  above : kernelText ≤ k.mmStart.toNat ∧ kernelText ≤ dir.toNat
  stored : r.Stored k.mem sb.device.startPos sb.device.storageSize.toNat
  str : IsStr k.mem dir name
  disk : NoForwardOverlap sb.device.storageSize.toNat (allocMem k).1 sb.device.startPos
  outside : ∀ i ≤ name.length,
    ¬ InBlock (allocMem k).1 sb.device.storageSize.toNat (dir + BitVec.ofNat 32 i)

/-- The inode of the first header with the name, or 0 when there is none. -/
def NameiCorrect (sb : SuperBlock) (r : RomImage) (name : List Byte) (k : Machine)
    (dir : Addr) : Prop :=
  ∃ k' inode, romfsNamei sb k dir = .ok (k', inode) ∧
    match r.lookup name with
    | some h => inode ≠ 0 ∧ readWord k'.mem (inode + offDaddr) = BitVec.ofNat 32 h.offset ∧
        readWord k'.mem (inode + offDsize) = h.size
    | none => inode = 0

/-- The machine behind the read of the device. -/
def loaded (sb : SuperBlock) (k : Machine) : Machine :=
  { (allocMem k).2 with
    mem := ramdiskDout sb.device (allocMem k).2.mem (allocMem k).1 0 sb.device.storageSize }

theorem loaded_mmStart (sb : SuperBlock) (k : Machine) : (loaded sb k).mmStart = k.mmStart := by
  unfold loaded
  dsimp only
  rw [allocMem_snd]

section

variable {sb : SuperBlock} {r : RomImage} {name : List Byte} {k : Machine} {dir : Addr}

theorem NameiLayout.loaded_stored (h : NameiLayout sb r name k dir) :
    r.Stored (loaded sb k).mem (allocMem k).1 sb.device.storageSize.toNat := by
  apply h.stored.congr
  intro i hi
  have hzero : (0 : Addr) + sb.device.startPos = sb.device.startPos := BitVec.zero_add _
  have hlt := sb.device.storageSize.isLt
  unfold loaded ramdiskDout pAsmMemcpy
  dsimp only
  rw [hzero, copy_dst h.disk hi (by omega), allocMem_snd]

theorem NameiLayout.loaded_name (h : NameiLayout sb r name k dir) :
    IsStr (loaded sb k).mem dir name := by
  apply h.str.congr
  intro i hi
  unfold loaded ramdiskDout pAsmMemcpy
  dsimp only
  rw [copy_out (h.outside i hi), allocMem_snd]

/-- The output of a lookup of `name` stays below the kernel: what is printed about the headers
    that are passed, and the name when a header, or the superblock, has it. -/
structure Displayable (r : RomImage) (name : List Byte) : Prop where
  passed : EntriesShown r.volume name 7 r.tested
  found : (∃ off, walk r.volume name r.tested = some off) → NameShown name

/-- The loop of a lookup, and what comes behind it. -/
theorem NameiLayout.romfsNamei_scan (h : NameiLayout sb r name k dir)
    (hlen : r.volume.length < 256) :
    romfsNamei sb k dir = (do
      match ← (if EntriesShown r.volume name 7 r.tested then .ok (walk r.volume name r.tested)
        else .error .overrun) with
      | some off => fillInode sb (loaded sb k) (allocMem k).1 dir off
      | none => .ok (loaded sb k, 0)) := by
  have hstored := h.loaded_stored
  have hne : sb.device.storageSize ≠ 0 := by
    intro hzero
    have hpos := h.stored.length_pos
    rw [hzero] at hpos
    have hnat : (0 : BitVec 32).toNat = 0 := rfl
    omega
  have hvol : IsStr (loaded sb k).mem ((allocMem k).1 + 16) r.volume := hstored.volume.str
  unfold romfsNamei
  dsimp only
  rw [if_neg hne]
  -- the machine behind the read is `loaded`
  change (do
    let volumeLen ← sStrlen (loaded sb k).mem ((allocMem k).1 + 16)
    match ← scanEntries (loaded sb k).mem (allocMem k).1 dir (2 ^ 28 + 2) 7
      (getNext16Boundary (volumeLen + 0x10)) with
    | some nextOffset => fillInode sb (loaded sb k) (allocMem k).1 dir nextOffset
    | none => .ok (loaded sb k, 0)) = _
  rw [sStrlen_eq hvol]
  change (do
    match ← scanEntries (loaded sb k).mem (allocMem k).1 dir (2 ^ 28 + 2) 7
      (getNext16Boundary (BitVec.ofNat 32 (r.volume.length % 256) + 0x10)) with
    | some nextOffset => fillInode sb (loaded sb k) (allocMem k).1 dir nextOffset
    | none => .ok (loaded sb k, 0)) = _
  rw [scanEntries_eq hstored hlen h.loaded_name]

/-- A lookup is a walk over the headers that are tested. -/
theorem NameiLayout.romfsNamei_eq (h : NameiLayout sb r name k dir)
    (hlen : r.volume.length < 256) (hd : Displayable r name) :
    romfsNamei sb k dir = match walk r.volume name r.tested with
      | some off => fillInode sb (loaded sb k) (allocMem k).1 dir off
      | none => .ok (loaded sb k, 0) := by
  rw [h.romfsNamei_scan hlen, if_pos hd.passed]
  rfl

/-- A lookup whose output comes to the kernel does not return. -/
theorem NameiLayout.romfsNamei_error (h : NameiLayout sb r name k dir)
    (hlen : r.volume.length < 256) (hd : ¬ Displayable r name) :
    romfsNamei sb k dir = .error .overrun := by
  rw [h.romfsNamei_scan hlen]
  by_cases hpassed : EntriesShown r.volume name 7 r.tested
  · rw [if_pos hpassed]
    cases hwalk : walk r.volume name r.tested with
    | none =>
      exact absurd ⟨hpassed, fun ⟨off, hoff⟩ => by rw [hwalk] at hoff; cases hoff⟩ hd
    | some off =>
      have hlong : ¬ NameShown name := fun hshown => hd ⟨hpassed, fun _ => hshown⟩
      exact fillInode_error sb (allocMem k).1 off h.loaded_name hlong
  · rw [if_neg hpassed]
    rfl

theorem loaded_freeBlocks (sb : SuperBlock) (k : Machine) :
    freeBlocks (loaded sb k).memoryUsed = freeBlocks k.memoryUsed - 1 := allocMem_freeBlocks k

/-- There is an inode when two blocks are free. -/
theorem loaded_inode (sb : SuperBlock) (hfits : Fits k.mmStart) :
    (allocMem (loaded sb k)).1 ≠ 0 ↔ 2 ≤ freeBlocks k.memoryUsed := by
  have hstart := loaded_mmStart sb k
  have hused := loaded_freeBlocks sb k
  rw [Ne, allocMem_eq_zero (by rw [hstart]; exact hfits), hused]
  omega

/-- It does not share a byte with the buffer. -/
theorem loaded_inode_apart (hfits : Fits k.mmStart) (hfree : 2 ≤ freeBlocks k.memoryUsed)
    {off : BitVec 32} (hoff : off.toNat + 12 ≤ blockSize) :
    Apart 4 (allocMem (loaded sb k)).1 ((allocMem k).1 + off + 8) := by
  have hfree' := loaded_freeBlocks sb k
  obtain ⟨i, hi, hbuf⟩ := allocMem_some (k := k) (by omega)
  obtain ⟨j, hj, hnew⟩ := allocMem_some (k := loaded sb k) (by omega)
  have hused : (loaded sb k).memoryUsed = Bitmap.set k.memoryUsed i := by
    unfold loaded
    rw [hbuf]
  have hij : i.val ≠ j.val := by
    intro hc
    rw [hused, bits_set, Finset.mem_insert, Fin.ext_iff] at hj
    exact hj (.inl hc.symm)
  have hi' := hfits.blockAddr_toNat i
  have hj' := hfits.blockAddr_toNat j
  have hbound := hfits.2
  have hilt := i.isLt
  have hjlt := j.isLt
  rw [hnew, hbuf, loaded_mmStart]
  dsimp only
  generalize blockAddr k.mmStart i = a at hi'
  generalize blockAddr k.mmStart j = b at hj'
  unfold Apart
  unfold blockSize at *
  constructor <;> bv_omega

/-! ## When it is right -/

/-- The condition. The volume name is shorter than 256 characters and the output
    stays below the kernel; a name that the root directory holds is not that of its
    first header, the length of the volume name is no multiple of 16, and two
    blocks are free; a name that it does not hold is not the volume name (or
    there is no block for the inode). -/
structure LookupSound (r : RomImage) (name : List Byte) (used : BitVec 32) : Prop where
  volume : r.volume.length < 256
  screen : Displayable r name
  held : (∃ h ∈ r.root, h.name = name) →
    r.volume.length % 16 ≠ 0 ∧ r.first.name ≠ name ∧ 2 ≤ freeBlocks used
  absent : (¬ ∃ h ∈ r.root, h.name = name) → name ≠ r.volume ∨ freeBlocks used < 2

theorem IsChain.mem {mem : Mem} {base : Addr} {size : ℕ} {h : RomHeader} {t : List RomHeader}
    (hc : IsChain mem base size h t) {g : RomHeader} (hg : g ∈ t) :
    h.offset < g.offset ∧ ∃ next, IsHeader mem base size g next := by
  induction t generalizing h with
  | nil => simp at hg
  | cons h' t ih =>
    obtain ⟨hlt, _, ht⟩ := hc
    rcases List.mem_cons.mp hg with rfl | hg
    · obtain ⟨next, hh, _⟩ := ht.head
      exact ⟨hlt, next, hh⟩
    · obtain ⟨hlt', hh⟩ := ih ht hg
      exact ⟨by omega, hh⟩

theorem walk_some {volume : List Byte} {t : List RomHeader} {off : BitVec 32}
    (h : walk volume name t = some off) :
    (∃ g ∈ t, g.name = name ∧ off = BitVec.ofNat 32 g.offset) ∨ (off = 0 ∧ volume = name) := by
  unfold walk at h
  cases hfind : t.find? fun h => h.name = name with
  | some g =>
    rw [hfind] at h
    have hname := List.find?_some hfind
    exact .inl ⟨g, List.mem_of_find?_eq_some hfind, by simpa using hname,
      (Option.some.inj h).symm⟩
  | none =>
    rw [hfind] at h
    dsimp only at h
    split_ifs at h with hvol
    exact .inr ⟨(Option.some.inj h).symm, hvol⟩

theorem RomImage.tested_subset {g : RomHeader} (h : g ∈ r.tested) : g ∈ r.rest := by
  unfold RomImage.tested at h
  split_ifs at h with hmod
  · simp at h
  · exact h

/-- What a successful walk returns. -/
theorem NameiLayout.found (h : NameiLayout sb r name k dir) (hlen : r.volume.length < 256)
    (hd : Displayable r name) {off : BitVec 32} (hwalk : walk r.volume name r.tested = some off) :
    ∃ k', romfsNamei sb k dir = .ok (k', (allocMem (loaded sb k)).1) ∧
      Filled (loaded sb k) (allocMem k).1 (allocMem (loaded sb k)).1 off k' ∧
      (2 ≤ freeBlocks k.memoryUsed →
        Apart 4 (allocMem (loaded sb k)).1 ((allocMem k).1 + off + 8)) := by
  have hvis : NameShown name := hd.found ⟨off, hwalk⟩
  have hoff : off.toNat + 12 ≤ blockSize := by
    have hsize := h.stored.size_le
    rcases walk_some hwalk with ⟨g, hg, _, rfl⟩ | ⟨rfl, _⟩
    · obtain ⟨_, _, hh⟩ := h.stored.chain.mem (RomImage.tested_subset hg)
      have hlt := hh.name.length_lt
      rw [BitVec.toNat_ofNat]
      unfold blockSize at *
      omega
    · have hzero : (0 : BitVec 32).toNat = 0 := rfl
      unfold blockSize
      omega
  obtain ⟨k', hk', hfilled⟩ := fillInode_eq sb (allocMem k).1 off h.loaded_name hvis
  refine ⟨k', ?_, hfilled, fun hfree => loaded_inode_apart h.fits hfree hoff⟩
  rw [h.romfsNamei_eq hlen hd, hwalk]
  exact hk'

theorem NameiLayout.not_found (h : NameiLayout sb r name k dir) (hlen : r.volume.length < 256)
    (hd : Displayable r name) (hwalk : walk r.volume name r.tested = none) :
    romfsNamei sb k dir = .ok (loaded sb k, 0) := by
  rw [h.romfsNamei_eq hlen hd, hwalk]

/-- A name that no header has. -/
theorem NameiLayout.absent_iff (h : NameiLayout sb r name k dir) (hlen : r.volume.length < 256)
    (hd : Displayable r name) (hno : ¬ ∃ g ∈ r.root, g.name = name) :
    NameiCorrect sb r name k dir ↔ name ≠ r.volume ∨ freeBlocks k.memoryUsed < 2 := by
  have hlookup : r.lookup name = none := by
    rw [RomImage.lookup, List.find?_eq_none]
    intro g hg
    simpa using fun hname => hno ⟨g, hg, hname⟩
  unfold NameiCorrect
  rw [hlookup]
  cases hwalk : walk r.volume name r.tested with
  | none =>
    have hvol : name ≠ r.volume := by
      intro hname
      unfold walk at hwalk
      cases hfind : r.tested.find? fun h => h.name = name with
      | some g =>
        rw [hfind] at hwalk
        cases hwalk
      | none =>
        rw [hfind] at hwalk
        dsimp only at hwalk
        rw [if_pos hname.symm] at hwalk
        cases hwalk
    exact ⟨fun _ => .inl hvol, fun _ => ⟨_, _, h.not_found hlen hd hwalk, rfl⟩⟩
  | some off =>
    obtain ⟨k', hk', _⟩ := h.found hlen hd hwalk
    have hvol : r.volume = name := by
      rcases walk_some hwalk with ⟨g, hg, hname, _⟩ | ⟨_, hvol⟩
      · exact absurd ⟨g, List.mem_cons_of_mem _ (RomImage.tested_subset hg), hname⟩ hno
      · exact hvol
    have hinode := loaded_inode sb h.fits
    constructor
    · intro hc
      obtain ⟨k'', inode, hrun, hnull⟩ := hc
      rw [hk'] at hrun
      obtain ⟨_, rfl⟩ := Prod.mk.inj (Except.ok.inj hrun)
      right
      by_contra hge
      exact hinode.mpr (by omega) hnull
    · intro hc
      rcases hc with hne | hlt
      · exact absurd hvol.symm hne
      · refine ⟨k', _, hk', ?_⟩
        by_contra hne
        have := hinode.mp hne
        omega

/-- Headers stand behind the superblock and inside a block. -/
theorem RomImage.Stored.offset_bounds {mem : Mem} {base : Addr} {size : ℕ}
    (h : r.Stored mem base size) {g : RomHeader} (hg : g ∈ r.root) :
    0 < g.offset ∧ g.offset < 2 ^ 32 := by
  have hsize := h.size_le
  have hfirst := h.first
  unfold blockSize at hsize
  rcases List.mem_cons.mp hg with rfl | hg
  · have hlt := h.offset_lt
    omega
  · obtain ⟨hlt, _, hh⟩ := h.chain.mem hg
    have hlt' := hh.name.length_lt
    omega

theorem ofNat_injective {m n : ℕ} (hm : m < 2 ^ 32) (hn : n < 2 ^ 32)
    (h : BitVec.ofNat 32 m = BitVec.ofNat 32 n) : m = n := by
  have hnat := congrArg BitVec.toNat h
  rwa [BitVec.toNat_ofNat, BitVec.toNat_ofNat, Nat.mod_eq_of_lt hm, Nat.mod_eq_of_lt hn] at hnat

/-- A header behind the first one is found where it is. -/
theorem RomImage.walk_lookup {g : RomHeader} (hmod : r.volume.length % 16 ≠ 0)
    (hfirst : r.first.name ≠ name) (hlookup : r.lookup name = some g) :
    g ∈ r.rest ∧ walk r.volume name r.tested = some (BitVec.ofNat 32 g.offset) := by
  have hfind : r.rest.find? (fun h => h.name = name) = some g := by
    rw [RomImage.lookup, RomImage.root, List.find?_cons_of_neg (by simpa using hfirst)] at hlookup
    exact hlookup
  refine ⟨List.mem_of_find?_eq_some hfind, ?_⟩
  rw [RomImage.tested, if_neg hmod, walk, hfind]

/-- A name that a header has. -/
theorem NameiLayout.held_iff (h : NameiLayout sb r name k dir) (hlen : r.volume.length < 256)
    (hd : Displayable r name) (hyes : ∃ g ∈ r.root, g.name = name) :
    NameiCorrect sb r name k dir ↔
      r.volume.length % 16 ≠ 0 ∧ r.first.name ≠ name ∧ 2 ≤ freeBlocks k.memoryUsed := by
  obtain ⟨g, hlookup⟩ : ∃ g, r.lookup name = some g := by
    rw [← Option.isSome_iff_exists, RomImage.lookup, List.find?_isSome]
    obtain ⟨g, hg, hname⟩ := hyes
    exact ⟨g, hg, by simpa using hname⟩
  have hg : g ∈ r.root := List.mem_of_find?_eq_some hlookup
  have hbounds := h.stored.offset_bounds hg
  have hinode := loaded_inode sb h.fits
  constructor
  · intro hc
    obtain ⟨k₁, inode, hrun, hright⟩ := hc
    rw [hlookup] at hright
    obtain ⟨hne, hdaddr, _⟩ := hright
    cases hwalk : walk r.volume name r.tested with
    | none =>
      rw [h.not_found hlen hd hwalk] at hrun
      exact absurd (Prod.mk.inj (Except.ok.inj hrun)).2.symm hne
    | some off =>
      obtain ⟨k₂, hk₂, hfilled, _⟩ := h.found hlen hd hwalk
      rw [hk₂] at hrun
      obtain ⟨rfl, rfl⟩ := Prod.mk.inj (Except.ok.inj hrun)
      rw [hfilled.daddr] at hdaddr
      rcases walk_some hwalk with ⟨g', hg', _, hoff'⟩ | ⟨hzero, _⟩
      · have hrest := RomImage.tested_subset hg'
        have hsame : g'.offset = g.offset :=
          ofNat_injective (h.stored.offset_bounds (List.mem_cons_of_mem _ hrest)).2 hbounds.2
            (hoff'.symm.trans hdaddr)
        refine ⟨fun hmod => ?_, fun hfirst => ?_, hinode.mp hne⟩
        · rw [RomImage.tested, if_pos hmod] at hg'
          simp at hg'
        · -- the first header would be the right one, and it is not tested
          have hlt := (h.stored.chain.mem hrest).1
          rw [RomImage.lookup, RomImage.root, List.find?_cons_of_pos (by simpa using hfirst)]
            at hlookup
          obtain rfl := Option.some.inj hlookup
          omega
      · rw [hzero] at hdaddr
        exact absurd hdaddr.symm (ofNat_ne_zero hbounds.1 hbounds.2)
  · intro hc
    obtain ⟨hmod, hfirst, hfree⟩ := hc
    obtain ⟨hrest, hwalk⟩ := RomImage.walk_lookup hmod hfirst hlookup
    obtain ⟨k', hk', hfilled, hapart⟩ := h.found hlen hd hwalk
    obtain ⟨_, _, hh⟩ := h.loaded_stored.chain.mem hrest
    refine ⟨k', _, hk', ?_⟩
    rw [hlookup]
    exact ⟨hinode.mpr hfree, hfilled.daddr, (hfilled.dsize (hapart hfree)).trans hh.dsize⟩

/-- Where the condition holds `romfs_namei` finds the first header with the name
    and returns 0 for a name that there is none of. For a volume name of less
    than 256 characters it does so nowhere else. -/
theorem namei_exact (h : NameiLayout sb r name k dir) :
    (LookupSound r name k.memoryUsed → NameiCorrect sb r name k dir) ∧
      (r.volume.length < 256 → NameiCorrect sb r name k dir →
        LookupSound r name k.memoryUsed) := by
  constructor
  · intro hs
    by_cases hyes : ∃ g ∈ r.root, g.name = name
    · exact (h.held_iff hs.volume hs.screen hyes).mpr (hs.held hyes)
    · exact (h.absent_iff hs.volume hs.screen hyes).mpr (hs.absent hyes)
  · intro hlen hc
    have hd : Displayable r name := by
      by_contra hd
      obtain ⟨k', inode, hrun, _⟩ := hc
      rw [h.romfsNamei_error hlen hd] at hrun
      cases hrun
    exact ⟨hlen, hd, fun hyes => (h.held_iff hlen hd hyes).mp hc,
      fun hno => (h.absent_iff hlen hd hno).mp hc⟩

end

/-! ### The sample image -/

/-- The booted machine with the image and a name to look up. -/
def romMachine (name : List Byte) : Machine :=
  { bootMachine sampleImage with mem := romMem sampleRomBytes name }

theorem romMachine_layout {name : List Byte}
    (hstored : sampleRom.Stored (romMem sampleRomBytes name) 0x200000 192)
    (hname : IsStr (romMem sampleRomBytes name) 0x300000 name)
    (hout : ∀ i ≤ name.length, ¬ InBlock 0x1000000 192 ((0x300000 : Addr) + BitVec.ofNat 32 i)) :
    NameiLayout sampleSb sampleRom name (romMachine name) 0x300000 := by
  have hbuf : (allocMem (romMachine name)).1 = 0x1000000 := by
    have hfind : findFreeArea 0 = (some 0, 1) := by decide
    rw [allocMem, show (romMachine name).memoryUsed = 0 from rfl, hfind]
    rfl
  have hstart : (romMachine name).mmStart = 0x1000000 := rfl
  refine ⟨?_, ?_, hstored, hname, ?_, ?_⟩
  · rw [hstart]
    decide
  · rw [hstart]
    decide
  · rw [hbuf]
    exact .inr (by decide)
  · rw [hbuf]
    exact hout

theorem sampleRom_displayable : Displayable sampleRom echoName where
  passed := by decide
  found _ := by decide

theorem namei_exact_echo :
    NameiCorrect sampleSb sampleRom echoName (romMachine echoName) 0x300000 := by
  have hlayout : NameiLayout sampleSb sampleRom echoName (romMachine echoName) 0x300000 :=
    romMachine_layout (by decide) (by decide) (by decide)
  have hsound : LookupSound sampleRom echoName (romMachine echoName).memoryUsed :=
    ⟨by decide, sampleRom_displayable, fun _ => by decide,
      fun hno => absurd ⟨⟨64, echoName, 88⟩, by decide, rfl⟩ hno⟩
  exact (namei_exact hlayout).1 hsound

/-- The first header of the image is the directory `.`, and it is not found. -/
theorem first_header_missed :
    NameiLayout sampleSb sampleRom [0x2e] (romMachine [0x2e]) 0x300000 ∧
      ¬ NameiCorrect sampleSb sampleRom [0x2e] (romMachine [0x2e]) 0x300000 := by
  have hlayout : NameiLayout sampleSb sampleRom [0x2e] (romMachine [0x2e]) 0x300000 :=
    romMachine_layout (by decide) (by decide) (by decide)
  refine ⟨hlayout, fun hc => ?_⟩
  have hheld := (hlayout.held_iff (by decide) ⟨by decide, fun _ => by decide⟩
    ⟨⟨32, [0x2e], 0⟩, by decide, rfl⟩).mp hc
  exact hheld.2.1 rfl

end SimpleOs
