import SimpleOs.Fs.Model
import SimpleOs.Mm.Alloc

/-!
# romfs images

What an image written by genromfs (others/genromfs.c:285-418) looks like in
memory: a superblock with the volume name, and behind it the chain of the
headers of the root directory. `RomImage` describes the content and
`RomImage.Stored` says that it stands at an address; it is kept by a copy
(`RomImage.Stored.congr`).

The file also holds what the string functions and the alignment helper of the
kernel compute on such data.
-/

namespace SimpleOs

open ByteMem

/-! ## The string functions -/

theorem sStrlenLoop_eq {mem : Mem} {s : List Byte} {a : Addr} (h : IsStr mem a s) {fuel : ℕ}
    (hfuel : s.length < fuel) (len : BitVec 8) :
    sStrlenLoop mem fuel a len = .ok (len + BitVec.ofNat 8 s.length) := by
  refine h.walk (motive := fun fuel a s => ∀ len,
    sStrlenLoop mem fuel a len = .ok (len + BitVec.ofNat 8 s.length)) ?_ ?_ hfuel len
  · intro fuel a hnul len
    rw [sStrlenLoop, if_neg (by simp [hnul])]
    simp
  · intro fuel a s hne _ ih len
    rw [sStrlenLoop, if_pos hne, ih, List.length_cons, BitVec.ofNat_add, BitVec.add_assoc,
      BitVec.add_comm 1 _]
    rfl

/-- `s_strlen` counts in a `u8`. -/
theorem sStrlen_eq {mem : Mem} {s : List Byte} {a : Addr} (h : IsStr mem a s) :
    sStrlen mem a = .ok (BitVec.ofNat 32 (s.length % 256)) := by
  have hloop := sStrlenLoop_eq h h.length_lt 0
  rw [sStrlen, hloop]
  have hval : (0 + BitVec.ofNat 8 s.length : BitVec 8).setWidth 32 =
      BitVec.ofNat 32 (s.length % 256) := by
    apply BitVec.eq_of_toNat_eq
    simp
  exact congrArg _ hval

theorem sStrcmpLoop_eq {mem : Mem} {s t : List Byte} {a b : Addr} (hs : IsStr mem a s)
    (ht : IsStr mem b t) {fuel : ℕ} (hfuel : s.length < fuel) :
    ∃ r, sStrcmpLoop mem fuel a b = .ok r ∧ (r = 0 ↔ s = t) := by
  refine hs.walk (motive := fun fuel a s => ∀ t b, IsStr mem b t →
    ∃ r, sStrcmpLoop mem fuel a b = .ok r ∧ (r = 0 ↔ s = t)) ?_ ?_ hfuel t b ht
  · intro fuel a hnul t b ht
    refine ⟨mem a - mem b, ?_, ?_⟩
    · rw [sStrcmpLoop, if_pos (.inr hnul)]
    · cases t with
      | nil =>
        have hnul' : mem b = 0 := ht
        rw [hnul, hnul']
        simp
      | cons d t =>
        have hne : mem a ≠ mem b := by
          rw [hnul, ht.1]
          exact ht.2.1.symm
        constructor
        · intro h0
          exact absurd (by bv_omega) hne
        · nofun
  · intro fuel a s hc _ ih t b ht
    by_cases heq : mem a = mem b
    · -- the first characters agree, so `t` has one too
      have hsub : mem a - mem b = 0 := by bv_omega
      cases t with
      | nil =>
        have hnul : mem b = 0 := ht
        exact absurd (heq.trans hnul) hc
      | cons d t =>
        obtain ⟨r, hr, hiff⟩ := ih t (b + 1) ht.2.2
        refine ⟨r, ?_, ?_⟩
        · rw [sStrcmpLoop, if_neg (not_or.mpr ⟨not_not.mpr hsub, hc⟩)]
          exact hr
        · rw [hiff, heq, ht.1]
          simp
    · have hsub : mem a - mem b ≠ 0 := by
        intro h0
        exact heq (by bv_omega)
      refine ⟨mem a - mem b, ?_, ?_⟩
      · rw [sStrcmpLoop, if_pos (.inl hsub)]
      · refine ⟨fun h0 => absurd h0 hsub, fun h => ?_⟩
        subst h
        exact absurd ht.1.symm heq

/-- `s_strcmp` returns 0 for equal strings only. -/
theorem sStrcmp_eq {mem : Mem} {s t : List Byte} {a b : Addr} (hs : IsStr mem a s)
    (ht : IsStr mem b t) : ∃ r, sStrcmp mem a b = .ok r ∧ (r = 0 ↔ s = t) :=
  sStrcmpLoop_eq hs ht hs.length_lt

theorem display_eq {vb n : ℕ} (h : vb + 2 * n ≤ kernelText) : display vb n = .ok () := if_pos h

theorem display_error {vb n : ℕ} (h : ¬ vb + 2 * n ≤ kernelText) :
    display vb n = .error .overrun := if_neg h

/-- A string is put on the screen as its characters. -/
theorem s32Print_eq {mem : Mem} {s : List Byte} {a : Addr} (h : IsStr mem a s) {fuel vb : ℕ}
    (hfuel : s.length < fuel) (hvb : vb ≤ kernelText) :
    s32Print mem fuel a vb = display vb s.length := by
  refine h.walk (motive := fun fuel a s => ∀ vb ≤ kernelText,
    s32Print mem fuel a vb = display vb s.length) ?_ ?_ hfuel vb hvb
  · intro fuel a hnul vb hvb
    rw [s32Print, if_neg (by simp [hnul])]
    exact (display_eq hvb).symm
  · intro fuel a s hne _ ih vb _
    rw [s32Print, if_pos hne]
    by_cases hone : vb + 2 * 1 ≤ kernelText
    · have hsame : display vb (s.length + 1) = display (vb + 2) s.length := by
        unfold display
        rw [show vb + 2 * (s.length + 1) = vb + 2 + 2 * s.length by omega]
      rw [display_eq hone, List.length_cons, hsame]
      exact ih (vb + 2) (by omega)
    · rw [display_error hone, List.length_cons, display_error (by omega)]
      rfl

/-! ## Alignment and byte order -/

/-- `n` rounded up to a multiple of 16. -/
def pad16 (n : ℕ) : ℕ := (n + 15) / 16 * 16

/-- `get_next_16_boundary` rounds up. -/
theorem getNext16Boundary_eq {n : ℕ} (hn : n + 15 < 2 ^ 32) :
    getNext16Boundary (BitVec.ofNat 32 n) = BitVec.ofNat 32 (pad16 n) := by
  have hmod : (BitVec.ofNat 32 n &&& 15).toNat = n % 16 := by
    rw [BitVec.toNat_and, BitVec.toNat_ofNat, Nat.mod_eq_of_lt (by omega)]
    exact Nat.and_two_pow_sub_one_eq_mod n 4
  have hzero : BitVec.ofNat 32 n &&& 15 = 0 ↔ n % 16 = 0 := by
    rw [← hmod]
    constructor
    · intro h
      rw [h]
      rfl
    · intro h
      exact BitVec.eq_of_toNat_eq h
  unfold getNext16Boundary pad16
  by_cases h : n % 16 = 0
  · rw [if_neg (by rw [not_not, hzero]; exact h), show (n + 15) / 16 * 16 = n by omega]
  · rw [if_pos (by rw [Ne, hzero]; exact h)]
    have hand : BitVec.ofNat 32 n &&& 15 = BitVec.ofNat 32 (n % 16) := by
      apply BitVec.eq_of_toNat_eq
      rw [hmod, BitVec.toNat_ofNat]
      omega
    have hsub : (16 : BitVec 32) - BitVec.ofNat 32 (n % 16) = BitVec.ofNat 32 (16 - n % 16) := by
      rw [show (16 : BitVec 32) = BitVec.ofNat 32 16 from rfl]
      apply BitVec.eq_of_toNat_eq
      simp only [BitVec.toNat_sub, BitVec.toNat_ofNat]
      omega
    rw [hand, hsub, ← BitVec.ofNat_add]
    congr 1
    omega

/-- A big-endian word. -/
def beWord (mem : Mem) (a : Addr) : BitVec 32 := be32tole32 (readWord mem a)

/-- The bytes of a word. -/
theorem extract_bytes (b3 b2 b1 b0 : Byte) :
    (b3 ++ b2 ++ b1 ++ b0 : BitVec 32).extractLsb' 0 8 = b0 ∧
      (b3 ++ b2 ++ b1 ++ b0 : BitVec 32).extractLsb' 8 8 = b1 ∧
      (b3 ++ b2 ++ b1 ++ b0 : BitVec 32).extractLsb' 16 8 = b2 ∧
      (b3 ++ b2 ++ b1 ++ b0 : BitVec 32).extractLsb' 24 8 = b3 := by
  refine ⟨?_, ?_, ?_, ?_⟩
  all_goals
    apply BitVec.eq_of_getLsbD_eq
    intro i hi
    simp only [BitVec.getLsbD_append, BitVec.getLsbD_extractLsb', hi, decide_true, Bool.true_and]
  · rw [if_pos (by omega), show 0 + i = i by omega]
  · rw [if_neg (by omega), if_pos (by omega), show 8 + i - 8 = i by omega]
  · rw [if_neg (by omega), if_neg (by omega), if_pos (by omega), show 16 + i - 8 - 8 = i by omega]
  · rw [if_neg (by omega), if_neg (by omega), if_neg (by omega),
      show 24 + i - 8 - 8 - 8 = i by omega]

theorem beWord_eq (mem : Mem) (a : Addr) :
    beWord mem a = mem a ++ mem (a + 1) ++ mem (a + 2) ++ mem (a + 3) := by
  obtain ⟨h0, h1, h2, h3⟩ := extract_bytes (mem (a + 3)) (mem (a + 2)) (mem (a + 1)) (mem a)
  unfold beWord be32tole32 readWord
  rw [h0, h1, h2, h3]

theorem beWord_congr {mem mem' : Mem} {a a' : Addr}
    (h : ∀ i < 4, mem' (a' + BitVec.ofNat 32 i) = mem (a + BitVec.ofNat 32 i)) :
    beWord mem' a' = beWord mem a := congrArg be32tole32 (readWord_congr h)

/-! ## Images -/

/-- A header of the root directory: where it stands, the name behind it and its
    size field. -/
structure RomHeader where
  offset : ℕ
  name : List Byte
  size : BitVec 32
  deriving DecidableEq

/-- The contents of an image that a lookup depends on. -/
structure RomImage where
  volume : List Byte
  first : RomHeader
  rest : List RomHeader

namespace RomImage

/-- The root directory. -/
def root (r : RomImage) : List RomHeader := r.first :: r.rest

/-- The first header with a given name. -/
def lookup (r : RomImage) (name : List Byte) : Option RomHeader :=
  r.root.find? fun h => h.name = name

end RomImage

/-- `-rom1fs-`. -/
def romMagic : List Byte := [0x2d, 0x72, 0x6f, 0x6d, 0x31, 0x66, 0x73, 0x2d]

section

variable (mem : Mem) (base : Addr) (size : ℕ)

/-- A name in an image of `size` bytes, padded with NUL bytes to a multiple of
    16 (`dumpri`, others/genromfs.c:285-308). -/
structure IsField (off : ℕ) (s : List Byte) : Prop where
  str : IsStr mem (base + BitVec.ofNat 32 off) s
  pad : ∀ i, s.length ≤ i → i < pad16 (s.length + 1) → mem (base + BitVec.ofNat 32 (off + i)) = 0
  fits : off + pad16 (s.length + 1) ≤ size

/-- A header in an image, with the offset of the next one. -/
structure IsHeader (h : RomHeader) (next : ℕ) : Prop where
  aligned : h.offset % 16 = 0
  name : IsField mem base size (h.offset + 16) h.name
  nextfh : beWord mem (base + BitVec.ofNat 32 h.offset) &&& 0xfffffff0 = BitVec.ofNat 32 next
  dsize : beWord mem (base + BitVec.ofNat 32 h.offset + 8) = h.size

/-- A chain of headers, in increasing order and ended by 0. -/
def IsChain : RomHeader → List RomHeader → Prop
  | h, [] => IsHeader mem base size h 0
  | h, h' :: t => h.offset < h'.offset ∧ IsHeader mem base size h h'.offset ∧ IsChain h' t

/-- The image `r` stands at `base`, in `size` bytes that fit a block. -/
structure RomImage.Stored (r : RomImage) : Prop where
  size_le : size ≤ blockSize
  magic : ∀ i : Fin romMagic.length, mem (base + BitVec.ofNat 32 i.val) = romMagic.get i
  volume : IsField mem base size 16 r.volume
  first : r.first.offset = 16 + pad16 (r.volume.length + 1)
  chain : IsChain mem base size r.first r.rest

end

/-! ## Copies -/

section

variable {mem mem' : Mem} {base base' : Addr} {size : ℕ}

/-- `mem'` holds at `base'` what `mem` holds at `base`. -/
def SameBytes (mem mem' : Mem) (base base' : Addr) (size : ℕ) : Prop :=
  ∀ i < size, mem' (base' + BitVec.ofNat 32 i) = mem (base + BitVec.ofNat 32 i)

theorem add_ofNat_add (a : Addr) (m n : ℕ) :
    a + BitVec.ofNat 32 m + BitVec.ofNat 32 n = a + BitVec.ofNat 32 (m + n) := by
  rw [BitVec.ofNat_add, BitVec.add_assoc]

theorem IsField.length_lt {off : ℕ} {s : List Byte} (h : IsField mem base size off s) :
    off + s.length < size := by
  have := h.fits
  unfold pad16 at this
  omega

theorem IsField.congr {off : ℕ} {s : List Byte} (h : IsField mem base size off s)
    (heq : SameBytes mem mem' base base' size) : IsField mem' base' size off s := by
  have hlen := h.length_lt
  refine ⟨h.str.congr fun i hi => ?_, fun i hi hi' => ?_, h.fits⟩
  · rw [add_ofNat_add, add_ofNat_add]
    exact heq (off + i) (by omega)
  · have hfits := h.fits
    rw [heq (off + i) (by omega)]
    exact h.pad i hi hi'

theorem IsHeader.congr {h : RomHeader} {next : ℕ} (hh : IsHeader mem base size h next)
    (heq : SameBytes mem mem' base base' size) : IsHeader mem' base' size h next := by
  have hlen := hh.name.length_lt
  refine ⟨hh.aligned, hh.name.congr heq, ?_, ?_⟩
  · rw [← hh.nextfh]
    congr 1
    apply beWord_congr
    intro i hi
    rw [add_ofNat_add, add_ofNat_add]
    exact heq (h.offset + i) (by omega)
  · rw [← hh.dsize]
    apply beWord_congr
    intro i hi
    rw [show (8 : Addr) = BitVec.ofNat 32 8 from rfl, add_ofNat_add, add_ofNat_add, add_ofNat_add,
      add_ofNat_add]
    exact heq (h.offset + (8 + i)) (by omega)

theorem IsChain.congr {h : RomHeader} {t : List RomHeader} (hc : IsChain mem base size h t)
    (heq : SameBytes mem mem' base base' size) : IsChain mem' base' size h t := by
  induction t generalizing h with
  | nil => exact IsHeader.congr hc heq
  | cons h' t ih => exact ⟨hc.1, hc.2.1.congr heq, ih hc.2.2⟩

theorem RomImage.Stored.length_pos {r : RomImage} (h : r.Stored mem base size) : 16 < size := by
  have := h.volume.length_lt
  omega

theorem RomImage.Stored.congr {r : RomImage} (h : r.Stored mem base size)
    (heq : SameBytes mem mem' base base' size) : r.Stored mem' base' size := by
  have hpos := h.length_pos
  refine ⟨h.size_le, fun i => ?_, h.volume.congr heq, h.first, h.chain.congr heq⟩
  have hi := i.isLt
  have hlen : romMagic.length = 8 := rfl
  rw [heq i.val (by omega)]
  exact h.magic i

/-- The header at the head of a chain. -/
theorem IsChain.head {h : RomHeader} {t : List RomHeader} (hc : IsChain mem base size h t) :
    ∃ next, IsHeader mem base size h next ∧ next < size := by
  cases t with
  | nil =>
    have hh : IsHeader mem base size h 0 := hc
    have hlen := hh.name.length_lt
    exact ⟨0, hh, by omega⟩
  | cons h' t =>
    obtain ⟨_, hh, ht⟩ := hc
    refine ⟨h'.offset, hh, ?_⟩
    cases t with
    | nil =>
      have hh' : IsHeader mem base size h' 0 := ht
      have hlen := hh'.name.length_lt
      omega
    | cons h'' t =>
      have hlen := ht.2.1.name.length_lt
      omega

end

/-! ## Deciding it -/

section

variable (mem : Mem) (base : Addr) (size : ℕ)

instance (off : ℕ) (s : List Byte) : Decidable (IsField mem base size off s) :=
  decidable_of_iff (IsStr mem (base + BitVec.ofNat 32 off) s ∧
      (∀ i < pad16 (s.length + 1), s.length ≤ i → mem (base + BitVec.ofNat 32 (off + i)) = 0) ∧
      off + pad16 (s.length + 1) ≤ size)
    ⟨fun h => ⟨h.1, fun i hi hi' => h.2.1 i hi' hi, h.2.2⟩,
      fun h => ⟨h.str, fun i hi hi' => h.pad i hi' hi, h.fits⟩⟩

instance (h : RomHeader) (next : ℕ) : Decidable (IsHeader mem base size h next) :=
  decidable_of_iff (h.offset % 16 = 0 ∧ IsField mem base size (h.offset + 16) h.name ∧
      beWord mem (base + BitVec.ofNat 32 h.offset) &&& 0xfffffff0 = BitVec.ofNat 32 next ∧
      beWord mem (base + BitVec.ofNat 32 h.offset + 8) = h.size)
    ⟨fun h => ⟨h.1, h.2.1, h.2.2.1, h.2.2.2⟩, fun h => ⟨h.aligned, h.name, h.nextfh, h.dsize⟩⟩

instance decidableIsChain : (h : RomHeader) → (t : List RomHeader) →
    Decidable (IsChain mem base size h t)
  | h, [] => inferInstanceAs (Decidable (IsHeader mem base size h 0))
  | h, h' :: t =>
    have := decidableIsChain h' t
    inferInstanceAs (Decidable (h.offset < h'.offset ∧ IsHeader mem base size h h'.offset ∧
      IsChain mem base size h' t))

instance (r : RomImage) : Decidable (r.Stored mem base size) :=
  decidable_of_iff (size ≤ blockSize ∧
      (∀ i : Fin romMagic.length, mem (base + BitVec.ofNat 32 i.val) = romMagic.get i) ∧
      IsField mem base size 16 r.volume ∧
      r.first.offset = 16 + pad16 (r.volume.length + 1) ∧
      IsChain mem base size r.first r.rest)
    ⟨fun h => ⟨h.1, h.2.1, h.2.2.1, h.2.2.2.1, h.2.2.2.2⟩,
      fun h => ⟨h.size_le, h.magic, h.volume, h.first, h.chain⟩⟩

end

/-! ## An image

The volume `rom` with the directory `.` and an executable `echo` of 88 bytes. -/

/-- Four bytes, the least significant first. -/
def bytesOf (n : ℕ) : List Byte :=
  [BitVec.ofNat 8 n, BitVec.ofNat 8 (n / 256), BitVec.ofNat 8 (n / 65536),
    BitVec.ofNat 8 (n / 16777216)]

/-- A header and its name, padded to a multiple of 16 (`dumpri`). -/
def dumpHeader (nextfh spec size : ℕ) (name : List Byte) : List Byte :=
  (bytesOf nextfh).reverse ++ (bytesOf spec).reverse ++ (bytesOf size).reverse ++ bytesOf 0 ++
    name ++ List.replicate (pad16 (name.length + 1) - name.length) 0

/-- An ELF file with the entry point `0x101000` and one segment of four bytes at
    `0x102000`. -/
def echoFile : List Byte :=
  [0x7f, 0x45, 0x4c, 0x46, 1, 1, 1] ++ List.replicate 9 0 ++ [2, 0, 3, 0] ++ bytesOf 1 ++
    bytesOf 0x101000 ++ bytesOf 52 ++ bytesOf 0 ++ bytesOf 0 ++ [52, 0, 32, 0, 1, 0] ++
    List.replicate 6 0 ++
    bytesOf 1 ++ bytesOf 84 ++ bytesOf 0x102000 ++ bytesOf 0x102000 ++ bytesOf 4 ++ bytesOf 4 ++
    bytesOf 5 ++ bytesOf 0x1000 ++ [0x90, 0x90, 0xeb, 0xfe]

/-- `rom` and `echo`. -/
def romName : List Byte := [0x72, 0x6f, 0x6d]
def echoName : List Byte := [0x65, 0x63, 0x68, 0x6f]

def sampleRom : RomImage := ⟨romName, ⟨32, [0x2e], 0⟩, [⟨64, echoName, 88⟩]⟩

def sampleRomBytes : List Byte :=
  romMagic ++ (bytesOf 192).reverse ++ bytesOf 0 ++ romName ++ List.replicate 13 0 ++
    dumpHeader 0x49 32 0 [0x2e] ++ dumpHeader 0xa 0 88 echoName ++ echoFile ++
    List.replicate 8 0

/-- The image at `0x200000`, and a name at `0x300000`. -/
def romMem (bytes name : List Byte) : Mem := fun a =>
  if a < 0x300000 then bytes.getD (a - 0x200000).toNat 0 else name.getD (a - 0x300000).toNat 0

def sampleSb : SuperBlock := ⟨0x180000, 0x200000, 192⟩

end SimpleOs
