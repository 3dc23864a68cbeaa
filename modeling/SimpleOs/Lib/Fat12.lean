import Mathlib.Data.Finset.Card
import Mathlib.Data.List.Nodup

/-!
# FAT12 volumes

The layout of a volume (reserved sectors, file allocation tables, root directory,
clusters), the entries of 12 bits, two in three bytes, the chain of the clusters of a file,
and the entries of the root directory. The addresses of sectors on a disk with cylinders and
heads.

* `lba_ofLba`: the address of a sector is the address of that sector.
* `Volume.Chain.length_le`: the chain of a file is not longer than the table.
* `even_entry`, `odd_entry`: what the usual shifts compute.
* `toNat_flatEntry`: the same entry, cut out of a table that is one string of bytes.
-/

namespace Fat12

/-! ## Disks -/

/-- Cylinder, head and sector, which counts from 1. -/
structure Chs where
  cylinder : ℕ
  head : ℕ
  sector : ℕ
  deriving DecidableEq

/-- The number of a sector on a disk with `heads` heads and `track` sectors to a
    track. -/
def Chs.lba (track heads : ℕ) (a : Chs) : ℕ :=
  (a.cylinder * heads + a.head) * track + (a.sector - 1)

/-- The address of the sector with number `n`. -/
def Chs.ofLba (track heads n : ℕ) : Chs where
  cylinder := n / track / heads
  head := n / track % heads
  sector := n % track + 1

theorem lba_ofLba (track heads n : ℕ) : (Chs.ofLba track heads n).lba track heads = n := by
  unfold Chs.lba Chs.ofLba
  dsimp only
  rw [Nat.add_sub_cancel, Nat.div_add_mod', Nat.div_add_mod']

/-! ## Volumes -/

/-- A volume: the contents of its sectors, and the parameters of its layout. -/
structure Volume where
  sector : ℕ → ℕ → BitVec 8
  bytesPerSector : ℕ
  sectorsPerCluster : ℕ
  reserved : ℕ
  fats : ℕ
  sectorsPerFat : ℕ
  rootEntries : ℕ
  sectors : ℕ

namespace Volume

/-- The root directory begins behind the tables. -/
def rootStart (v : Volume) : ℕ := v.reserved + v.fats * v.sectorsPerFat

/-- An entry of the root directory has 32 bytes. -/
def rootSectors (v : Volume) : ℕ := (v.rootEntries * 32 + v.bytesPerSector - 1) / v.bytesPerSector

def dataStart (v : Volume) : ℕ := v.rootStart + v.rootSectors

/-- The first sector of a cluster; they are numbered from 2. -/
def clusterSector (v : Volume) (c : ℕ) : ℕ := v.dataStart + (c - 2) * v.sectorsPerCluster

/-- A byte of the first table. -/
def fatByte (v : Volume) (i : ℕ) : BitVec 8 :=
  v.sector (v.reserved + i / v.bytesPerSector) (i % v.bytesPerSector)

/-- The entry of the cluster `c`: one and a half bytes, the low half first. -/
def entry (v : Volume) (c : ℕ) : ℕ :=
  let lo := (v.fatByte (c + c / 2)).toNat
  let hi := (v.fatByte (c + c / 2 + 1)).toNat
  if c % 2 = 0 then lo + 256 * (hi % 16) else lo / 16 + 16 * hi

/-- The numbers of clusters that can hold data and lie in the volume. -/
def IsData (v : Volume) (c : ℕ) : Prop :=
  2 ≤ c ∧ c < 0xff7 ∧ v.clusterSector c + v.sectorsPerCluster ≤ v.sectors

/-- The end-of-chain marks. -/
def IsEndMark (mark : ℕ) : Prop := 0xff8 ≤ mark ∧ mark ≤ 0xfff

/-- The file that begins in the cluster `c`, continues in those of the list, and ends
    with `mark`. -/
inductive Chain (v : Volume) (mark : ℕ) : ℕ → List ℕ → Prop
  | last {c : ℕ} (hdata : v.IsData c) (hentry : v.entry c = mark) : Chain v mark c []
  | next {c d : ℕ} {l : List ℕ} (hdata : v.IsData c) (hentry : v.entry c = d)
      (h : Chain v mark d l) : Chain v mark c (d :: l)

variable {v : Volume} {mark c : ℕ} {l : List ℕ}

theorem Chain.isData_head (h : Chain v mark c l) : v.IsData c := by
  cases h with
  | last hdata => exact hdata
  | next hdata => exact hdata

theorem Chain.isData (h : Chain v mark c l) : ∀ d ∈ c :: l, v.IsData d := by
  induction h with
  | last hdata hentry =>
    intro d hd
    rw [List.mem_singleton.mp hd]
    exact hdata
  | next hdata hentry h ih =>
    intro d hd
    rcases List.mem_cons.mp hd with rfl | hd
    · exact hdata
    · exact ih d hd

theorem IsEndMark.not_isData (h : IsEndMark mark) : ¬ v.IsData mark := by
  intro hdata
  have hle := h.1
  have hlt := hdata.2.1
  omega

/-- The entries determine the rest of a file. -/
theorem Chain.unique {l' : List ℕ} (hmark : ¬ v.IsData mark) (h : v.Chain mark c l)
    (h' : v.Chain mark c l') : l = l' := by
  induction h generalizing l' with
  | last hdata hentry =>
    cases h' with
    | last => rfl
    | next _ hentry' h' =>
      subst hentry
      exact absurd (hentry' ▸ h'.isData_head) hmark
  | next hdata hentry h ih =>
    cases h' with
    | last _ hentry' =>
      subst hentry'
      exact absurd (hentry ▸ h.isData_head) hmark
    | next _ hentry' h' =>
      subst hentry hentry'
      rw [ih h']

/-- Every cluster of a file is the beginning of a shorter one. -/
theorem Chain.of_mem {d : ℕ} (h : v.Chain mark c l) (hd : d ∈ l) :
    ∃ l', v.Chain mark d l' ∧ l'.length < l.length := by
  induction h with
  | last => cases hd
  | @next c e l hdata hentry h ih =>
    rcases List.mem_cons.mp hd with rfl | hd
    · exact ⟨l, h, Nat.lt_succ_self _⟩
    · obtain ⟨l', h', hlt⟩ := ih hd
      exact ⟨l', h', Nat.lt_succ_of_lt hlt⟩

/-- A file that comes to its end has no cluster twice. -/
theorem Chain.nodup (hmark : ¬ v.IsData mark) (h : v.Chain mark c l) : (c :: l).Nodup := by
  induction h with
  | last => simp
  | @next c d l hdata hentry h ih =>
    refine List.nodup_cons.mpr ⟨fun hmem => ?_, ih⟩
    have hchain : v.Chain mark c (d :: l) := .next hdata hentry h
    obtain ⟨l', h', hlt⟩ := hchain.of_mem hmem
    rw [hchain.unique hmark h'] at hlt
    omega

/-- A file has no more clusters than there are numbers for. -/
theorem Chain.length_le (h : Chain v mark c l) (hnodup : (c :: l).Nodup) :
    (c :: l).length ≤ 0xff7 := by
  have hsub : (c :: l).toFinset ⊆ Finset.range 0xff7 := by
    intro d hd
    exact Finset.mem_range.mpr (h.isData d (List.mem_toFinset.mp hd)).2.1
  have hcard := Finset.card_le_card hsub
  rwa [List.toFinset_card_of_nodup hnodup, Finset.card_range] at hcard

/-! ### The root directory -/

/-- Byte `i` of the entry `k`. -/
def dirByte (v : Volume) (k i : ℕ) : BitVec 8 :=
  v.sector (v.rootStart + (k * 32 + i) / v.bytesPerSector) ((k * 32 + i) % v.bytesPerSector)

/-- The directory ends before this entry. -/
def IsEnd (v : Volume) (k : ℕ) : Prop := v.dirByte k 0 = 0

def IsDeleted (v : Volume) (k : ℕ) : Prop := v.dirByte k 0 = 0xe5

def IsLabel (v : Volume) (k : ℕ) : Prop := (v.dirByte k 0x0b).getLsbD 3 = true

/-- The entry of a file with this name, of 8 characters and an extension of 3. -/
def IsFile (v : Volume) (name : ℕ → BitVec 8) (k : ℕ) : Prop :=
  ¬ v.IsDeleted k ∧ ¬ v.IsLabel k ∧ ∀ i < 11, v.dirByte k i = name i

/-- The first entry of the directory with this name. -/
structure FirstFile (v : Volume) (name : ℕ → BitVec 8) (k : ℕ) : Prop where
  lt : k < v.rootEntries
  notEnd : ∀ m ≤ k, ¬ v.IsEnd m
  file : v.IsFile name k
  first : ∀ m < k, ¬ v.IsFile name m

theorem FirstFile.unique {v : Volume} {name : ℕ → BitVec 8} {k k' : ℕ} (h : v.FirstFile name k)
    (h' : v.FirstFile name k') : k = k' := by
  rcases Nat.lt_trichotomy k k' with hlt | rfl | hlt
  · exact absurd h.file (h'.first k hlt)
  · rfl
  · exact absurd h'.file (h.first k' hlt)

def firstCluster (v : Volume) (k : ℕ) : BitVec 16 := v.dirByte k 0x1b ++ v.dirByte k 0x1a

def fileSize (v : Volume) (k : ℕ) : BitVec 32 :=
  v.dirByte k 0x1f ++ v.dirByte k 0x1e ++ v.dirByte k 0x1d ++ v.dirByte k 0x1c

end Volume

/-! ## Decoding an entry -/

/-- The entry `c` of a table that is one string of bytes. -/
def flatEntry (b : ℕ → BitVec 8) (c : ℕ) : BitVec 16 :=
  let pair : BitVec 16 := (b (3 * c / 2)).setWidth 16 ||| (b (3 * c / 2 + 1)).setWidth 16 <<< 8
  (if c % 2 = 1 then pair >>> 4 else pair) &&& (0xfff : BitVec 16)

theorem toNat_pair (lo hi : BitVec 8) :
    (lo.setWidth 16 ||| hi.setWidth 16 <<< 8).toNat = lo.toNat + 256 * hi.toNat := by
  have hlo : lo.toNat < 2 ^ 8 := lo.isLt
  have hhi : hi.toNat < 2 ^ 8 := hi.isLt
  have hlo16 : (lo.setWidth 16).toNat = lo.toNat := by
    rw [BitVec.toNat_setWidth]
    omega
  have hshift : (hi.setWidth 16 <<< 8).toNat = 2 ^ 8 * hi.toNat := by
    rw [BitVec.toNat_shiftLeft, BitVec.toNat_setWidth, Nat.shiftLeft_eq]
    omega
  rw [BitVec.toNat_or, hlo16, hshift, Nat.or_comm, ← Nat.two_pow_add_eq_or_of_lt hlo]
  omega

theorem toNat_flatEntry (b : ℕ → BitVec 8) (c : ℕ) :
    (flatEntry b c).toNat =
      if c % 2 = 1 then (b (3 * c / 2)).toNat / 16 + 16 * (b (3 * c / 2 + 1)).toNat
      else (b (3 * c / 2)).toNat + 256 * ((b (3 * c / 2 + 1)).toNat % 16) := by
  have hlo : (b (3 * c / 2)).toNat < 2 ^ 8 := (b (3 * c / 2)).isLt
  have hhi : (b (3 * c / 2 + 1)).toNat < 2 ^ 8 := (b (3 * c / 2 + 1)).isLt
  have hpair := toNat_pair (b (3 * c / 2)) (b (3 * c / 2 + 1))
  have hmask : ∀ x : BitVec 16, (x &&& (0xfff : BitVec 16)).toNat = x.toNat % 4096 := by
    intro x
    rw [BitVec.toNat_and]
    exact Nat.and_two_pow_sub_one_eq_mod x.toNat 12
  unfold flatEntry
  dsimp only
  rw [hmask]
  split_ifs
  · rw [BitVec.toNat_ushiftRight, hpair, Nat.shiftRight_eq_div_pow]
    omega
  · rw [hpair]
    omega

theorem toNat_widen (b : BitVec 8) : (b.setWidth 32).toNat = b.toNat := by
  have hb : b.toNat < 2 ^ 8 := b.isLt
  rw [BitVec.toNat_setWidth]
  omega

theorem toNat_nibble (x : BitVec 32) : (x &&& (0x0f : BitVec 32)).toNat = x.toNat % 16 := by
  rw [BitVec.toNat_and]
  exact Nat.and_two_pow_sub_one_eq_mod x.toNat 4

theorem even_entry (lo hi : BitVec 8) :
    ((hi.setWidth 32 &&& (0x0f : BitVec 32)) <<< 8 ||| lo.setWidth 32).toNat =
      lo.toNat + 256 * (hi.toNat % 16) := by
  have hlo : lo.toNat < 2 ^ 8 := lo.isLt
  have hshift : ((hi.setWidth 32 &&& (0x0f : BitVec 32)) <<< 8).toNat =
      2 ^ 8 * (hi.toNat % 16) := by
    rw [BitVec.toNat_shiftLeft, toNat_nibble, toNat_widen, Nat.shiftLeft_eq]
    omega
  rw [BitVec.toNat_or, hshift, toNat_widen, ← Nat.two_pow_add_eq_or_of_lt hlo]
  omega

theorem odd_entry (lo hi : BitVec 8) :
    (lo.setWidth 32 >>> 4 &&& (0x0f : BitVec 32) ||| hi.setWidth 32 <<< 4).toNat =
      lo.toNat / 16 + 16 * hi.toNat := by
  have hlo : lo.toNat < 2 ^ 8 := lo.isLt
  have hhi : hi.toNat < 2 ^ 8 := hi.isLt
  have hnibble : (lo.setWidth 32 >>> 4 &&& (0x0f : BitVec 32)).toNat = lo.toNat / 16 := by
    rw [toNat_nibble, BitVec.toNat_ushiftRight, toNat_widen, Nat.shiftRight_eq_div_pow]
    omega
  have hshift : (hi.setWidth 32 <<< 4).toNat = 2 ^ 4 * hi.toNat := by
    rw [BitVec.toNat_shiftLeft, toNat_widen, Nat.shiftLeft_eq]
    omega
  rw [BitVec.toNat_or, hnibble, hshift, Nat.or_comm, ← Nat.two_pow_add_eq_or_of_lt (by omega)]
  omega

/-- The entry of a cluster in the first table. -/
theorem Volume.entry_eq_flatEntry (v : Volume) (c : ℕ) :
    v.entry c = (flatEntry v.fatByte c).toNat := by
  have hlo : 3 * c / 2 = c + c / 2 := by omega
  rw [toNat_flatEntry, hlo]
  unfold Volume.entry
  dsimp only
  split_ifs
  · omega
  · rfl
  · rfl
  · omega

end Fat12
