import Mathlib.Data.Finset.Image
import SimpleOs.Lib.Bitmap
import SimpleOs.Kernel.IpcRuns
import SimpleOs.Mm.Model

/-!
# The block allocator

`alloc_mem` and `free_mem` (mm/mm.c:33-62) hand out the 32 blocks of 512 KB
above `mm_start`. The bitmap `memory_used` is read as a set of block numbers
(`Bitmap.bits`), and a run of calls keeps it the set of the blocks that are
live, wherever `mm_start` is, as long as the 16 MB fit.

* `allocRun_refines`: the pointers that have been returned and not yet freed are
  those of the set bits.
-/

namespace SimpleOs

open ByteMem Transition Bitmap

/-! ## The blocks -/

/-- The size of a block, 512 KB. -/
abbrev blockSize : ℕ := 512 * 1024

/-- The address of the block with the number `i`. -/
def blockAddr (start : Addr) (i : Fin 32) : Addr := start + BitVec.ofNat 32 (i.val * 512 * 1024)

/-- The blocks do not begin at 0 and do not wrap around. -/
def Fits (start : Addr) : Prop := 0 < start.toNat ∧ start.toNat + 32 * blockSize ≤ 2 ^ 32

instance (start : Addr) : Decidable (Fits start) := inferInstanceAs (Decidable (_ ∧ _))

theorem Fits.blockAddr_toNat {start : Addr} (h : Fits start) (i : Fin 32) :
    (blockAddr start i).toNat = start.toNat + i.val * blockSize := by
  have hi := i.isLt
  have hfits := h.2
  unfold blockSize at *
  rw [blockAddr, BitVec.toNat_add, BitVec.toNat_ofNat, Nat.mod_eq_of_lt, Nat.mod_eq_of_lt]
  · omega
  · omega
  · rw [Nat.mod_eq_of_lt]
    · omega
    · omega

theorem Fits.blockAddr_ne_zero {start : Addr} (h : Fits start) (i : Fin 32) :
    blockAddr start i ≠ 0 := by
  intro hc
  have hnat := h.blockAddr_toNat i
  have hpos := h.1
  rw [hc] at hnat
  have hzero : (0 : Addr).toNat = 0 := rfl
  omega

theorem Fits.blockAddr_injective {start : Addr} (h : Fits start) :
    Function.Injective (blockAddr start) := by
  intro i j hij
  have hi := h.blockAddr_toNat i
  have hj := h.blockAddr_toNat j
  rw [hij, hj] at hi
  unfold blockSize at hi
  apply Fin.ext
  omega

/-- The number that `free_mem` computes from a pointer. -/
theorem blockAddr_number (start : Addr) (i : Fin 32) :
    ((blockAddr start i - start).toNat / (512 * 1024)) % 32 = i.val := by
  have hi := i.isLt
  have hsub : blockAddr start i - start = BitVec.ofNat 32 (i.val * 512 * 1024) := by
    rw [blockAddr]
    rw [BitVec.add_comm]
    exact BitVec.add_sub_cancel _ start
  rw [hsub, BitVec.toNat_ofNat]
  omega

/-! ## The two functions -/

theorem findFreeArea_eq (used : BitVec 32) :
    findFreeArea used = match firstClear used with
      | some i => (some i, set used i)
      | none => (none, used) := by
  have hbit : ∀ i : Fin 32, (((used >>> i.val) &&& 1) == 0) = !used.getLsbD i.val := by
    intro i
    have hand : (used >>> i.val) &&& 1 =
        BitVec.setWidth 32 (BitVec.ofBool (used.getLsbD i.val)) := by
      have := BitVec.and_one_eq_setWidth_ofBool_getLsbD (x := used >>> i.val)
      rw [BitVec.getLsbD_ushiftRight, Nat.add_zero] at this
      exact this
    rw [hand]
    cases used.getLsbD i.val with
    | false => rfl
    | true => rfl
  have hone : ∀ i : Fin 32, ((1 <<< i.val : ℕ) : BitVec 32) = (1 : BitVec 32) <<< i.val := by decide
  unfold findFreeArea firstClear
  simp only [hbit]
  cases (List.finRange 32).find? fun i => !used.getLsbD i.val with
  | none => rfl
  | some i =>
    dsimp only
    rw [Bitmap.set, ← hone]

/-- `alloc_mem` returns the first free block, or 0. -/
theorem allocMem_cases (k : Machine) :
    (∃ i, i ∉ bits k.memoryUsed ∧
      allocMem k = (blockAddr k.mmStart i, { k with memoryUsed := set k.memoryUsed i })) ∨
    (bits k.memoryUsed = Finset.univ ∧ allocMem k = (0, k)) := by
  unfold allocMem
  rw [findFreeArea_eq]
  cases hfirst : firstClear k.memoryUsed with
  | some i => exact .inl ⟨i, firstClear_notMem hfirst, rfl⟩
  | none => exact .inr ⟨firstClear_eq_none.mp hfirst, rfl⟩

/-- The number of blocks that can be had. -/
def freeBlocks (used : BitVec 32) : ℕ := (bits used)ᶜ.card

theorem freeBlocks_eq_zero {used : BitVec 32} : freeBlocks used = 0 ↔ bits used = Finset.univ := by
  rw [freeBlocks, Finset.card_eq_zero, Finset.compl_eq_empty_iff]

theorem freeBlocks_set {used : BitVec 32} {i : Fin 32} (h : i ∉ bits used) :
    freeBlocks (set used i) + 1 = freeBlocks used := by
  unfold freeBlocks
  rw [bits_set, Finset.compl_insert, Finset.card_erase_add_one (Finset.mem_compl.mpr h)]

theorem allocMem_full {k : Machine} (h : freeBlocks k.memoryUsed = 0) : allocMem k = (0, k) := by
  rw [freeBlocks_eq_zero] at h
  rcases allocMem_cases k with ⟨i, hi, _⟩ | ⟨_, heq⟩
  · rw [h] at hi
    exact absurd (Finset.mem_univ i) hi
  · exact heq

theorem allocMem_some {k : Machine} (h : 0 < freeBlocks k.memoryUsed) :
    ∃ i, i ∉ bits k.memoryUsed ∧
      allocMem k = (blockAddr k.mmStart i, { k with memoryUsed := set k.memoryUsed i }) := by
  rcases allocMem_cases k with hsome | ⟨hall, _⟩
  · exact hsome
  · have hzero := freeBlocks_eq_zero.mpr hall
    omega

/-- `alloc_mem` fails when no block is free. -/
theorem allocMem_eq_zero {k : Machine} (h : Fits k.mmStart) :
    (allocMem k).1 = 0 ↔ freeBlocks k.memoryUsed = 0 := by
  rw [freeBlocks_eq_zero]
  rcases allocMem_cases k with ⟨i, hi, heq⟩ | ⟨hall, heq⟩
  · rw [heq]
    refine ⟨fun hc => absurd hc (h.blockAddr_ne_zero i), fun hall => ?_⟩
    rw [hall] at hi
    exact absurd (Finset.mem_univ i) hi
  · rw [heq]
    exact ⟨fun _ => hall, fun _ => rfl⟩

theorem allocMem_freeBlocks (k : Machine) :
    freeBlocks (allocMem k).2.memoryUsed = freeBlocks k.memoryUsed - 1 := by
  rcases allocMem_cases k with ⟨i, hi, heq⟩ | ⟨hall, heq⟩
  · have hset := freeBlocks_set hi
    rw [heq]
    dsimp only
    omega
  · rw [heq, freeBlocks_eq_zero.mpr hall]

/-- `alloc_mem` changes the bitmap only. -/
theorem allocMem_snd (k : Machine) :
    (allocMem k).2 = { k with memoryUsed := (allocMem k).2.memoryUsed } := by
  rcases allocMem_cases k with ⟨i, _, heq⟩ | ⟨_, heq⟩
  · rw [heq]
  · rw [heq]

theorem freeMem_zero (k : Machine) : freeMem k 0 = k := rfl

/-- `free_mem` finds the bit of a block. -/
theorem freeMem_block {k : Machine} (h : Fits k.mmStart) (i : Fin 32) :
    freeMem k (blockAddr k.mmStart i) = { k with memoryUsed := clear k.memoryUsed i } := by
  unfold freeMem
  rw [if_neg (h.blockAddr_ne_zero i)]
  dsimp only
  rw [blockAddr_number]
  rfl

/-! ## Whole runs -/

/-- The machine, and the pointers that have been returned and not yet freed. -/
structure Pool where
  k : Machine
  live : Finset Addr

/-- A call of `alloc_mem`, or of `free_mem` on null or a live pointer. -/
inductive PoolStep (s : Pool) : Pool → Prop
  | alloc : PoolStep s ⟨(allocMem s.k).2,
      if (allocMem s.k).1 = 0 then s.live else insert (allocMem s.k).1 s.live⟩
  | free (p : Addr) (h : p = 0 ∨ p ∈ s.live) : PoolStep s ⟨freeMem s.k p, s.live.erase p⟩

/-- No block is in use. -/
structure PoolStart (s : Pool) : Prop where
  used : s.k.memoryUsed = 0
  live : s.live = ∅
  fits : Fits s.k.mmStart

/-- The live pointers are those of the set bits. -/
structure PoolInv (s : Pool) : Prop where
  fits : Fits s.k.mmStart
  live : s.live = (bits s.k.memoryUsed).image (blockAddr s.k.mmStart)

theorem PoolStart.inv {s : Pool} (h : PoolStart s) : PoolInv s := by
  refine ⟨h.fits, ?_⟩
  rw [h.used, bits_zero, Finset.image_empty]
  exact h.live

theorem PoolInv.mem_live {s : Pool} (h : PoolInv s) {a : Addr} :
    a ∈ s.live ↔ ∃ i ∈ bits s.k.memoryUsed, blockAddr s.k.mmStart i = a := by
  rw [h.live, Finset.mem_image]

theorem PoolInv.zero_notMem {s : Pool} (h : PoolInv s) : (0 : Addr) ∉ s.live := by
  intro hc
  obtain ⟨i, _, hi⟩ := h.mem_live.mp hc
  exact h.fits.blockAddr_ne_zero i hi

theorem PoolInv.step {s s' : Pool} (h : PoolInv s) (hs : PoolStep s s') : PoolInv s' := by
  cases hs with
  | alloc =>
    rcases allocMem_cases s.k with ⟨i, _, heq⟩ | ⟨_, heq⟩
    · rw [heq]
      refine ⟨h.fits, ?_⟩
      dsimp only
      rw [if_neg (h.fits.blockAddr_ne_zero i), bits_set, Finset.image_insert, h.live]
    · rw [heq]
      exact h
  | free p hp =>
    rcases hp with rfl | hp
    · rw [freeMem_zero, Finset.erase_eq_of_notMem h.zero_notMem]
      exact h
    · obtain ⟨i, _, rfl⟩ := h.mem_live.mp hp
      rw [freeMem_block h.fits i]
      refine ⟨h.fits, ?_⟩
      dsimp only
      rw [bits_clear, Finset.image_erase h.fits.blockAddr_injective, h.live]

theorem PoolInv.card_live {s : Pool} (h : PoolInv s) :
    s.live.card = (bits s.k.memoryUsed).card := by
  rw [h.live, Finset.card_image_of_injective _ h.fits.blockAddr_injective]

/-- What the allocator guarantees. -/
structure AllocRefines (s : Pool) : Prop where
  /-- The live pointers are those of the set bits, one for one. -/
  live : ∀ a, a ∈ s.live ↔ ∃! i, i ∈ bits s.k.memoryUsed ∧ blockAddr s.k.mmStart i = a
  /-- The blocks lie in the 16 MB from `mm_start` on, -/
  inside : ∀ a ∈ s.live, s.k.mmStart.toNat ≤ a.toNat ∧
    a.toNat + blockSize ≤ s.k.mmStart.toNat + 16 * 1024 * 1024
  /-- and no two of them overlap. -/
  disjoint : ∀ a ∈ s.live, ∀ b ∈ s.live, a ≠ b →
    a.toNat + blockSize ≤ b.toNat ∨ b.toNat + blockSize ≤ a.toNat
  /-- `alloc_mem` fails when all blocks are live, and changes nothing then. -/
  full : (allocMem s.k).1 = 0 ↔ s.live.card = 32
  full_same : s.live.card = 32 → (allocMem s.k).2 = s.k
  /-- Otherwise it returns a block that was not live. -/
  fresh : (allocMem s.k).1 ∉ s.live
  /-- `free_mem` clears the bit of its block and no other. -/
  freed : ∀ a ∈ s.live, ∃ i, blockAddr s.k.mmStart i = a ∧
    bits (freeMem s.k a).memoryUsed = (bits s.k.memoryUsed).erase i
  restored : (freeMem (allocMem s.k).2 (allocMem s.k).1).memoryUsed = s.k.memoryUsed

theorem PoolInv.full {s : Pool} (h : PoolInv s) :
    (allocMem s.k).1 = 0 ↔ s.live.card = 32 := by
  rw [h.card_live]
  rcases allocMem_cases s.k with ⟨i, hi, heq⟩ | ⟨hall, heq⟩
  · rw [heq]
    have hne := h.fits.blockAddr_ne_zero i
    refine ⟨fun hc => absurd hc hne, fun hc => ?_⟩
    have huniv := (Finset.card_eq_iff_eq_univ _).mp (hc.trans (Fintype.card_fin 32).symm)
    rw [huniv] at hi
    exact absurd (Finset.mem_univ i) hi
  · rw [heq, hall, Finset.card_univ, Fintype.card_fin]
    exact ⟨fun _ => rfl, fun _ => rfl⟩

theorem PoolInv.refines {s : Pool} (h : PoolInv s) : AllocRefines s := by
  refine ⟨fun a => ?_, fun a ha => ?_, fun a ha b hb hab => ?_, h.full, fun hc => ?_, ?_,
    fun a ha => ?_, ?_⟩
  · rw [h.mem_live]
    constructor
    · intro ha
      obtain ⟨i, hi, rfl⟩ := ha
      exact ⟨i, ⟨hi, rfl⟩, fun j hj => h.fits.blockAddr_injective hj.2⟩
    · intro ha
      obtain ⟨i, hi, _⟩ := ha
      exact ⟨i, hi.1, hi.2⟩
  · obtain ⟨i, _, rfl⟩ := h.mem_live.mp ha
    have hi := i.isLt
    rw [h.fits.blockAddr_toNat i]
    unfold blockSize
    omega
  · obtain ⟨i, _, rfl⟩ := h.mem_live.mp ha
    obtain ⟨j, _, rfl⟩ := h.mem_live.mp hb
    have hij : i.val ≠ j.val := by
      intro hc
      exact hab (congrArg _ (Fin.ext hc))
    rw [h.fits.blockAddr_toNat i, h.fits.blockAddr_toNat j]
    unfold blockSize
    omega
  · rcases allocMem_cases s.k with ⟨i, _, heq⟩ | ⟨_, heq⟩
    · have hzero := h.full.mpr hc
      rw [heq] at hzero
      exact absurd hzero (h.fits.blockAddr_ne_zero i)
    · rw [heq]
  · rcases allocMem_cases s.k with ⟨i, hi, heq⟩ | ⟨_, heq⟩
    · rw [heq, h.mem_live]
      intro hc
      obtain ⟨j, hj, hij⟩ := hc
      rw [h.fits.blockAddr_injective hij] at hj
      exact hi hj
    · rw [heq]
      exact h.zero_notMem
  · obtain ⟨i, _, rfl⟩ := h.mem_live.mp ha
    refine ⟨i, rfl, ?_⟩
    rw [freeMem_block h.fits i]
    exact bits_clear _ i
  · rcases allocMem_cases s.k with ⟨i, hi, heq⟩ | ⟨_, heq⟩
    · rw [heq]
      dsimp only
      rw [freeMem_block (k := { s.k with memoryUsed := set s.k.memoryUsed i }) h.fits i]
      exact clear_set _ i hi
    · rw [heq, freeMem_zero]

/-- In every state that calls of `alloc_mem` and `free_mem` reach, for every
    `mm_start` above which the blocks fit. -/
theorem allocRun_refines {s : Pool} (h : Reachable PoolStart PoolStep s) : AllocRefines s := by
  have hinv : PoolInv s := h.invariant (fun _ h0 => h0.inv) fun _ _ hI hs => hI.step hs
  exact hinv.refines

/-- One allocation on the booted machine, and a free of null. -/
theorem allocRun_refines_first :
    AllocRefines ⟨freeMem (allocMem (bootMachine sampleImage)).2 0,
      Finset.erase {0x1000000} 0⟩ := by
  have hstart : PoolStart ⟨bootMachine sampleImage, ∅⟩ := ⟨rfl, rfl, by decide⟩
  have halloc : PoolStep ⟨bootMachine sampleImage, ∅⟩
      ⟨(allocMem (bootMachine sampleImage)).2, {0x1000000}⟩ := .alloc
  exact allocRun_refines (.step (.step (.init hstart) halloc) (.free 0 (.inl rfl)))

end SimpleOs
