import SimpleOs.Lib.Walk
import SimpleOs.Loader.Entry

/-!
# The end of loading

The loop of `load_file_to_ram` ends with the entry 0xfff and with no other: the sectors are
not counted against the size of the file, and an entry that leads back is followed again
(kernel_loader.c:618-661).

* `loadLoop_returns`: the loop ends in as many rounds as the table has links up to 0xfff.
* `loadFileToRam_returns_iff`: which files are loaded at all.
* `cluster_in_a_circle`: a table with a file that is not.
-/

namespace SimpleOs

open ByteMem Fat12

/-! ## The links -/

/-- What is read for a cluster, as a link to the cluster behind it. -/
def nextLink (disk : ℕ → ℕ → Byte) (c : BitVec 16) : BitVec 16 := flatEntry (fatBytes disk) c.toNat

theorem flatEntry_lt (b : ℕ → Byte) (c : ℕ) : (flatEntry b c).toNat < 0x1000 := by
  have hlo : (b (3 * c / 2)).toNat < 2 ^ 8 := (b (3 * c / 2)).isLt
  have hhi : (b (3 * c / 2 + 1)).toNat < 2 ^ 8 := (b (3 * c / 2 + 1)).isLt
  rw [toNat_flatEntry]
  split_ifs
  · omega
  · omega

theorem getNextCluster_lt (int13 : Int13) (c : BitVec 16) (s : Loader) :
    (getNextCluster int13 c s).1.toNat < 0x1000 := by
  have hbyte : ∀ b : Byte, b.toNat < 2 ^ 8 := fun b => b.isLt
  unfold getNextCluster
  dsimp only
  split_ifs
  · rw [BitVec.toNat_setWidth, odd_entry]
    have hlo := hbyte ((readFat int13 (BitVec.ofNat 16 ((c.toNat - 1) / 2 * 3 / 512 + 2))
      s).fatBuffer ((c.toNat - 1) / 2 * 3 % 512 + 1))
    have hhi := hbyte ((readFat int13 (BitVec.ofNat 16 ((c.toNat - 1) / 2 * 3 / 512 + 2))
      s).fatBuffer ((c.toNat - 1) / 2 * 3 % 512 + 2))
    omega
  · rw [BitVec.toNat_setWidth, even_entry]
    have hlo := hbyte ((readFat int13 (BitVec.ofNat 16 (c.toNat / 2 * 3 / 512 + 2))
      s).fatBuffer (c.toNat / 2 * 3 % 512 + 0))
    omega

/-- Every entry has its place in the two sectors that are read for it. -/
theorem DeliversPairs.getNextCluster {int13 : Int13} {disk : ℕ → ℕ → Byte}
    (hbios : DeliversPairs int13 disk) {c : BitVec 16} (hc : c.toNat < 0x1000) (s : Loader) :
    (getNextCluster int13 c s).1 = nextLink disk c := by
  have hdecode := getNextCluster_decode (s := s) (b := fatBytes disk) (c := c.toNat) hc
    fun i hi => hbios.fatByte hc s.fatBuffer hi
  rw [BitVec.ofNat_toNat, BitVec.setWidth_eq] at hdecode
  rw [hdecode]
  rfl

section Loop

variable {int13 : Int13} {disk : ℕ → ℕ → Byte} {bpb : Bpb}

/-- The first entry is read for whatever cluster the loop begins with, the others for the
    entries themselves. -/
theorem loadLoop_returns (hbios : DeliversPairs int13 disk) (fuel : ℕ) (c : BitVec 16)
    (s : Loader) :
    (∃ s', loadLoop int13 bpb fuel c s = some s') ↔
      ∃ n < fuel, (nextLink disk)^[n] (getNextCluster int13 c s).1 = 0xfff := by
  induction fuel generalizing c s with
  | zero =>
    constructor
    · intro ⟨s', h⟩
      cases h
    · intro ⟨n, hn, _⟩
      omega
  | succ fuel ih =>
    have hlt := getNextCluster_lt int13 c s
    unfold loadLoop
    generalize getNextCluster int13 c s = r at hlt
    obtain ⟨d, s1⟩ := r
    dsimp only at hlt ⊢
    by_cases hend : d = 0xfff
    · rw [if_neg (not_not.mpr hend)]
      exact ⟨fun _ => ⟨0, Nat.succ_pos fuel, hend⟩, fun _ => ⟨s1, rfl⟩⟩
    · rw [if_pos hend, ih, hbios.getNextCluster hlt]
      constructor
      · intro ⟨n, hn, hhit⟩
        exact ⟨n + 1, Nat.succ_lt_succ hn, hhit⟩
      · intro ⟨n, hn, hhit⟩
        cases n with
        | zero => exact absurd hhit hend
        | succ n => exact ⟨n, Nat.lt_of_succ_lt_succ hn, hhit⟩

/-- The number of rounds is bounded by the number of values that an entry can have. -/
theorem nextLink_hit_iff {d : BitVec 16} (hd : d.toNat < 0x1000) :
    (∃ n, (nextLink disk)^[n] d = 0xfff) ↔ ∃ n < 0x1000, (nextLink disk)^[n] d = 0xfff := by
  have hinj : Function.Injective (BitVec.toNat : BitVec 16 → ℕ) := fun _ _ h =>
    BitVec.eq_of_toNat_eq h
  apply Walk.exists_hit_iff (· = 0xfff) hinj
  intro i
  cases i with
  | zero => exact hd
  | succ i =>
    rw [Function.iterate_succ_apply']
    exact flatEntry_lt (fatBytes disk) _

theorem loadFileToRam_returns (hbios : DeliversPairs int13 disk) (fuel : ℕ) (beginCluster fat : ℤ)
    (s : Loader) :
    (∃ s', loadFileToRam int13 bpb fuel beginCluster fat s = some s') ↔
      fat = 0 ∨ ∃ n < fuel, (nextLink disk)^[n] (getNextCluster int13 (BitVec.ofInt 16 beginCluster)
        (loadSector int13 bpb beginCluster s)).1 = 0xfff := by
  unfold loadFileToRam
  dsimp only
  by_cases hfat : fat = 0
  · rw [if_neg (not_not.mpr hfat)]
    exact ⟨fun _ => .inl hfat, fun _ => ⟨_, rfl⟩⟩
  · rw [if_pos hfat, loadLoop_returns hbios]
    exact ⟨.inr, fun h => h.resolve_left hfat⟩

/-- A file is loaded if and only if its chain comes to 0xfff; the loop then has no more than
    4096 rounds, and its first link is the entry of the first cluster when that has one. -/
theorem loadFileToRam_returns_iff (hbios : DeliversPairs int13 disk) (bpb : Bpb)
    (beginCluster fat : ℤ) (s : Loader) :
    let first := (getNextCluster int13 (BitVec.ofInt 16 beginCluster)
      (loadSector int13 bpb beginCluster s)).1
    ((∃ fuel s', loadFileToRam int13 bpb fuel beginCluster fat s = some s') ↔
      fat = 0 ∨ ∃ n, (nextLink disk)^[n] first = 0xfff) ∧
    ((∃ n, (nextLink disk)^[n] first = 0xfff) →
      ∃ s', loadFileToRam int13 bpb 0x1000 beginCluster fat s = some s') ∧
    ((BitVec.ofInt 16 beginCluster).toNat < 0x1000 →
      first = nextLink disk (BitVec.ofInt 16 beginCluster)) := by
  intro first
  have hlt : first.toNat < 0x1000 := getNextCluster_lt _ _ _
  refine ⟨?_, ?_, fun hc => hbios.getNextCluster hc _⟩
  · constructor
    · intro ⟨fuel, h⟩
      rcases (loadFileToRam_returns hbios fuel beginCluster fat s).mp h with hfat | ⟨n, _, hhit⟩
      · exact .inl hfat
      · exact .inr ⟨n, hhit⟩
    · rintro (hfat | ⟨n, hhit⟩)
      · exact ⟨0, (loadFileToRam_returns hbios 0 beginCluster fat s).mpr (.inl hfat)⟩
      · refine ⟨n + 1, (loadFileToRam_returns hbios (n + 1) beginCluster fat s).mpr (.inr ?_)⟩
        exact ⟨n, Nat.lt_succ_self n, hhit⟩
  · intro h
    apply (loadFileToRam_returns hbios 0x1000 beginCluster fat s).mpr
    exact .inr ((nextLink_hit_iff hlt).mp h)

end Loop

/-! ### A chain that leads back -/

/-- The file of the cluster 2 whose last entry ends it. -/
theorem loadFileToRam_returns_two :
    ∃ s', loadFileToRam (sampleInt13 (sampleFloppy 0xf)) sampleBpb 0x1000 2 1 sampleLoader =
      some s' := by
  have hreturns := loadFileToRam_returns_iff (sampleInt13_deliversPairs (sampleFloppy 0xf))
    sampleBpb 2 1 sampleLoader
  refine hreturns.2.1 ⟨1, ?_⟩
  rw [hreturns.2.2 (by decide)]
  decide

/-- The same floppy, but that the entry of the cluster 2 is 2. -/
def circleFloppy : Volume :=
  { sampleFloppy 0xf with
    sector := fun n i =>
      if n = 1 ∧ i = 3 then 2 else if n = 1 ∧ i = 4 then 0 else (sampleFloppy 0xf).sector n i }

theorem nextLink_circleFloppy : nextLink circleFloppy.sector 2 = 2 := by decide

/-- The loop reads the cluster 2 for ever. -/
theorem cluster_in_a_circle :
    ¬ ∃ fuel s', loadFileToRam (sampleInt13 circleFloppy) sampleBpb fuel 2 1 sampleLoader =
      some s' := by
  have hbios := sampleInt13_deliversPairs circleFloppy
  have hfixed (n : ℕ) : (nextLink circleFloppy.sector)^[n] 2 = 2 :=
    Function.iterate_fixed nextLink_circleFloppy n
  intro ⟨fuel, h⟩
  rcases (loadFileToRam_returns hbios fuel 2 1 sampleLoader).mp h with hfat | ⟨n, _, hhit⟩
  · exact absurd hfat (by decide)
  · have htwo : BitVec.ofInt 16 2 = (2 : BitVec 16) := by decide
    rw [htwo, hbios.getNextCluster (by decide), nextLink_circleFloppy, hfixed n] at hhit
    exact absurd hhit (by decide)

end SimpleOs
