import SimpleOs.Mm.Alloc

/-!
# Where the blocks are

Model of `memtest_sub` (p_kernel.s:601-633), `memtest` and `mm_init` (mm/mm.c:27-31,
65-98). The memory of the machine is a parameter: `memtest` finds a size between 4 MB
and 32 MB, page by page, and `mm_init` puts the 16 MB of blocks at its end without
looking whether there are that many.

* `memtest_range`: which sizes `memtest` returns.
* `mmInit_real_iff`: from 20 MB on the blocks lie in memory, above the kernel.
* `four_megabytes`: a machine with less.
-/

namespace SimpleOs

open ByteMem Bitmap

/-! ## The size of the memory -/

/-- The memory of a machine: whether the word at an address keeps both patterns, and the
    word at `0xffc`. -/
structure Ram where
  keeps : Addr → Bool
  wordFfc : BitVec 32

/-- `memtest_sub(start, end)` (p_kernel.s:601-633), from `mts_loop` on. The `add 0xffc` has
    no `$`, so it adds the word at that address; the word tested is restored. -/
def memtestSub (ram : Ram) (stop : BitVec 32) : ℕ → BitVec 32 → Option (BitVec 32)
  | 0, _ => none
  | fuel + 1, i =>
    if ram.keeps (i + ram.wordFfc) then
      if i + 0x1000 ≤ stop then memtestSub ram stop fuel (i + 0x1000) else some (i + 0x1000)
    else some i

/-- `memtest(start, end)` (mm/mm.c:65-98); the cache, which it turns off for the test, is
    left out. There are `2 ^ 20` pages. -/
def memtest (ram : Ram) (start stop : BitVec 32) : Option (BitVec 32) :=
  memtestSub ram stop (2 ^ 20) start

/-- `mm_init` (mm/mm.c:27-31): `memsize`, and the machine with `mm_start`. -/
def mmInit (ram : Ram) (k : Machine) : Option (BitVec 32 × Machine) := do
  let memsize ← memtest ram 0x00400000 0x2000000
  some (memsize, { k with mmStart := memsize - 16 * 1024 * 1024 })

/-- The page with the number `n`, from 4 MB on. -/
def pageAddr (n : ℕ) : BitVec 32 := 0x00400000 + BitVec.ofNat 32 (0x1000 * n)

theorem pageAddr_toNat {n : ℕ} (hn : n ≤ 0x1c01) :
    (pageAddr n).toNat = 0x400000 + 0x1000 * n := by
  have hbase : (0x00400000 : BitVec 32).toNat = 0x400000 := rfl
  unfold pageAddr
  rw [BitVec.toNat_add, BitVec.toNat_ofNat, hbase]
  omega

theorem pageAddr_succ (n : ℕ) : pageAddr n + 0x1000 = pageAddr (n + 1) := by
  unfold pageAddr
  rw [Nat.mul_succ, BitVec.ofNat_add, BitVec.add_assoc]
  rfl

theorem pageAddr_le {n : ℕ} (hn : n ≤ 0x1c01) : pageAddr n ≤ 0x2000000 ↔ n ≤ 0x1c00 := by
  have hstop : (0x2000000 : BitVec 32).toNat = 0x2000000 := rfl
  rw [BitVec.le_def, pageAddr_toNat hn, hstop]
  omega

/-- The loop stops at the first page that is no memory, or behind 32 MB. -/
theorem memtestSub_eq (ram : Ram) (fuel n : ℕ) (hn : n ≤ 0x1c00) (hfuel : 0x1c01 ≤ fuel + n) :
    ∃ m, memtestSub ram 0x2000000 fuel (pageAddr n) = some (pageAddr m) ∧ n ≤ m ∧ m ≤ 0x1c01 ∧
      (∀ i, n ≤ i → i < m → ram.keeps (pageAddr i + ram.wordFfc) = true) ∧
      (m ≤ 0x1c00 → ram.keeps (pageAddr m + ram.wordFfc) = false) := by
  induction fuel generalizing n with
  | zero => omega
  | succ fuel ih =>
    cases hkeeps : ram.keeps (pageAddr n + ram.wordFfc) with
    | false =>
      refine ⟨n, ?_, le_refl n, by omega, fun i h1 h2 => by omega, fun _ => hkeeps⟩
      rw [memtestSub, hkeeps]
      rfl
    | true =>
      have hcond : pageAddr n + 0x1000 ≤ 0x2000000 ↔ n + 1 ≤ 0x1c00 := by
        rw [pageAddr_succ, pageAddr_le (by omega)]
      by_cases hlast : n + 1 ≤ 0x1c00
      · obtain ⟨m, hm, hnm, hle, hall, hstop⟩ := ih (n + 1) hlast (by omega)
        refine ⟨m, ?_, by omega, hle, fun i h1 h2 => ?_, hstop⟩
        · rw [memtestSub, hkeeps, if_pos rfl, if_pos (hcond.mpr hlast), pageAddr_succ]
          exact hm
        · rcases Nat.eq_or_lt_of_le h1 with rfl | h1
          · exact hkeeps
          · exact hall i h1 h2
      · refine ⟨n + 1, ?_, by omega, by omega, fun i h1 h2 => ?_, fun h => absurd h hlast⟩
        · rw [memtestSub, hkeeps, if_pos rfl, if_neg (fun h => hlast (hcond.mp h)), pageAddr_succ]
        · have hi : i = n := by omega
          rw [hi]
          exact hkeeps

/-- The sizes that `memtest` returns are the page-aligned ones from 4 MB to one page behind
    32 MB. -/
theorem memtest_range (m : BitVec 32) :
    (∃ ram, memtest ram 0x00400000 0x2000000 = some m) ↔ ∃ n ≤ 0x1c01, m = pageAddr n := by
  have hfirst : (0x00400000 : BitVec 32) = pageAddr 0 := rfl
  unfold memtest
  rw [hfirst]
  constructor
  · intro h
    obtain ⟨ram, hram⟩ := h
    obtain ⟨n, hn, _, hle, _⟩ := memtestSub_eq ram (2 ^ 20) 0 (by omega) (by omega)
    rw [hn] at hram
    exact ⟨n, hle, (Option.some.inj hram).symm⟩
  · intro h
    obtain ⟨n, hle, rfl⟩ := h
    refine ⟨⟨fun a => decide (a < pageAddr n), 0⟩, ?_⟩
    obtain ⟨m, hm, _, hmle, hall, hstop⟩ :=
      memtestSub_eq ⟨fun a => decide (a < pageAddr n), 0⟩ (2 ^ 20) 0 (by omega) (by omega)
    rw [hm]
    congr 2
    have hlt : ∀ i, i ≤ 0x1c01 → (pageAddr i + 0 < pageAddr n ↔ i < n) := by
      intro i hi
      have hzero : pageAddr i + (0 : BitVec 32) = pageAddr i := BitVec.add_zero (pageAddr i)
      change pageAddr i + (0 : BitVec 32) < pageAddr n ↔ i < n
      rw [hzero, BitVec.lt_def, pageAddr_toNat hi, pageAddr_toNat hle]
      omega
    rcases Nat.lt_trichotomy m n with h | h | h
    · have hno := hstop (by omega)
      rw [decide_eq_false_iff_not, hlt m hmle] at hno
      exact absurd h hno
    · exact h
    · have hyes := hall n (by omega) h
      rw [decide_eq_true_iff, hlt n hle] at hyes
      exact absurd hyes (Nat.lt_irrefl n)

/-! ## The blocks -/

/-- Whatever is in use, a block that `alloc_mem` returns lies between 4 MB and the end of
    the memory, is not at 0, and 0 means that all bits are set. -/
structure RealBlocks (memsize : BitVec 32) (k : Machine) : Prop where
  inside : ∀ used, used ≠ BitVec.allOnes 32 →
    0x00400000 ≤ (allocMem { k with memoryUsed := used }).1.toNat ∧
      (allocMem { k with memoryUsed := used }).1.toNat + blockSize ≤ memsize.toNat
  nonzero : ∀ used, used ≠ BitVec.allOnes 32 → (allocMem { k with memoryUsed := used }).1 ≠ 0
  full : ∀ used, (allocMem { k with memoryUsed := used }).1 = 0 → used = BitVec.allOnes 32

theorem bits_eq_univ {used : BitVec 32} (h : bits used = Finset.univ) :
    used = BitVec.allOnes 32 := by
  apply bits_injective
  rw [h]
  apply Eq.symm
  rw [Finset.eq_univ_iff_forall]
  intro i
  rw [mem_bits, BitVec.getLsbD_allOnes]
  exact decide_eq_true i.isLt

/-- The blocks are real when all of them are above 4 MB. -/
theorem realBlocks_of_le {memsize : BitVec 32} {k : Machine}
    (hstart : k.mmStart = memsize - 16 * 1024 * 1024) (hle : 0x01400000 ≤ memsize.toNat)
    (hmax : memsize.toNat ≤ 0x02001000) : RealBlocks memsize k := by
  have hnat : k.mmStart.toNat + 0x1000000 = memsize.toNat := by
    rw [hstart]
    bv_omega
  have hfits : Fits k.mmStart := by
    unfold Fits blockSize
    omega
  have hblock : ∀ used, used ≠ BitVec.allOnes 32 →
      ∃ i, (allocMem { k with memoryUsed := used }).1 = blockAddr k.mmStart i := by
    intro used hused
    rcases allocMem_cases { k with memoryUsed := used } with ⟨i, _, heq⟩ | ⟨hall, _⟩
    · exact ⟨i, congrArg Prod.fst heq⟩
    · exact absurd (bits_eq_univ hall) hused
  refine ⟨fun used hused => ?_, fun used hused => ?_, fun used hzero => ?_⟩
  · obtain ⟨i, hi⟩ := hblock used hused
    have haddr := hfits.blockAddr_toNat i
    have hlt := i.isLt
    rw [hi]
    unfold blockSize at *
    omega
  · obtain ⟨i, hi⟩ := hblock used hused
    rw [hi]
    exact hfits.blockAddr_ne_zero i
  · by_contra hused
    obtain ⟨i, hi⟩ := hblock used hused
    rw [hi] at hzero
    exact hfits.blockAddr_ne_zero i hzero

/-- The first block says how much memory there is. -/
theorem RealBlocks.le {memsize : BitVec 32} {k : Machine} (h : RealBlocks memsize k)
    (hstart : k.mmStart = memsize - 16 * 1024 * 1024) (hmax : memsize.toNat ≤ 0x02001000) :
    0x01400000 ≤ memsize.toNat := by
  have hfirst : (allocMem { k with memoryUsed := 0 }).1 = k.mmStart := by
    have hfind : findFreeArea 0 = (some 0, 1) := by decide
    have hzero : k.mmStart + BitVec.ofNat 32 (0 * 512 * 1024) = k.mmStart := BitVec.add_zero _
    rw [allocMem, hfind]
    exact hzero
  obtain ⟨hlow, hhigh⟩ := h.inside 0 (by decide)
  rw [hfirst, hstart] at hlow hhigh
  unfold blockSize at hhigh
  bv_omega

/-- `mm_init` returns on every machine, and puts the blocks into memory above 4 MB if and
    only if it has found 20 MB. -/
theorem mmInit_real_iff (ram : Ram) (k : Machine) :
    ∃ memsize k', mmInit ram k = some (memsize, k') ∧
      (RealBlocks memsize k' ↔ 0x01400000 ≤ memsize.toNat) := by
  obtain ⟨n, hn, _, hle, _⟩ := memtestSub_eq ram (2 ^ 20) 0 (by omega) (by omega)
  have hmax : (pageAddr n).toNat ≤ 0x02001000 := by
    rw [pageAddr_toNat hle]
    omega
  have hmemtest : memtest ram 0x00400000 0x2000000 = some (pageAddr n) := hn
  refine ⟨pageAddr n, { k with mmStart := pageAddr n - 16 * 1024 * 1024 }, ?_,
    fun h => h.le rfl hmax, fun h => realBlocks_of_le rfl h hmax⟩
  rw [mmInit, hmemtest]
  rfl

/-- With 4 MB `mm_start` is `0xff400000`: the first block is no memory, and the one with the
    number 24 is at 0. -/
theorem four_megabytes :
    ∃ k', mmInit ⟨fun _ => false, 0⟩ (bootMachine sampleImage) = some (0x00400000, k') ∧
      (allocMem { k' with memoryUsed := 0 }).1 = 0xff400000 ∧
      (allocMem { k' with memoryUsed := 0x00ffffff }).1 = 0 ∧ ¬ RealBlocks 0x00400000 k' := by
  have hfirst : findFreeArea 0 = (some 0, 1) := by decide
  have hlast : findFreeArea 0x00ffffff = (some 24, 0x01ffffff) := by decide
  have haddr : (0xff400000 : BitVec 32) + BitVec.ofNat 32 (24 * 512 * 1024) = 0 := by decide
  have hmemtest : memtest ⟨fun _ => false, 0⟩ 0x00400000 0x2000000 = some 0x00400000 := by
    obtain ⟨fuel, hfuel⟩ : ∃ fuel, 2 ^ 20 = fuel + 1 := ⟨0xfffff, by decide⟩
    rw [memtest, hfuel, memtestSub]
    rfl
  refine ⟨{ bootMachine sampleImage with mmStart := 0xff400000 }, ?_, ?_, ?_, fun h => ?_⟩
  · rw [mmInit, hmemtest]
    rfl
  · rw [allocMem, hfirst]
    rfl
  · rw [allocMem, hlast]
    exact haddr
  · exact absurd (h.le rfl (by decide)) (by decide)

end SimpleOs
