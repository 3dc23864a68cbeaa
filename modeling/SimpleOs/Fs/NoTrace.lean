import SimpleOs.Fs.Load
import SimpleOs.Fs.Walk

/-!
# Lookups that fail

`romfs_namei` (fs/romfs.c:102-209) takes a block for its copy of the ramdisk and releases it
where it returns an inode; the other two exits keep it. What `alloc_mem` returns is compared
with 0 nowhere, neither for the copy nor for the inode.

* `namei_no_trace_iff`: which lookups leave the allocator as it was when they return 0, and
  use no null pointer.
* `absent_name_keeps_block`: two that do not.
-/

namespace SimpleOs

open ByteMem Bitmap Logged Walk

/-- Something is copied to, or stored through, a null pointer. -/
def RomfsEffect.ThroughNull : RomfsEffect → Prop
  | .dout dest size => dest = 0 ∧ size ≠ 0
  | .store p _ => p = 0
  | _ => False

/-- A lookup that returns 0 leaves `memory_used` unchanged, and nothing is copied to or stored
    through a null pointer. -/
structure NoTrace (fuel : ℕ) (sb : SuperBlock) (k : Machine) (dir : Addr) : Prop where
  unchanged : ∀ k', (romfsNameiLog fuel sb k dir).result = .ok (k', 0) →
    k'.memoryUsed = k.memoryUsed
  nonnull : ∀ e ∈ (romfsNameiLog fuel sb k dir).log, ¬ e.ThroughNull

/-- A block that `alloc_mem` returns is marked in the bitmap. -/
theorem allocMem_used_ne {k : Machine} (h : (allocMem k).1 ≠ 0) :
    (allocMem k).2.memoryUsed ≠ k.memoryUsed := by
  rcases allocMem_cases k with ⟨i, hi, heq⟩ | ⟨_, heq⟩
  · have hset := freeBlocks_set hi
    rw [heq]
    dsimp only
    intro hsame
    rw [hsame] at hset
    omega
  · rw [heq] at h
    exact absurd rfl h

theorem allocMem_used_eq {k : Machine} :
    (allocMem k).2.memoryUsed = k.memoryUsed ↔ freeBlocks k.memoryUsed = 0 := by
  have hcount := allocMem_freeBlocks k
  constructor
  · intro h
    rw [h] at hcount
    omega
  · intro h
    rw [allocMem_full h]

theorem scanEntriesLog_screen {mem : Mem} {buf dir : Addr} {fuel line : ℕ} {off : BitVec 32}
    (hnul : ∃ z, mem z = 0) {e : RomfsEffect}
    (he : e ∈ (scanEntriesLog mem buf dir fuel line off).log) : ∃ out, e = .screen out := by
  induction fuel generalizing line off with
  | zero => cases he
  | succ fuel ih =>
    by_cases hname : HasName mem buf dir (nextHeader mem buf off)
    · rw [scanEntriesLog_found hnul hname] at he
      cases he
    · by_cases hzero : nextHeader mem buf off = 0
      · rw [hzero] at hname
        rw [scanEntriesLog_end hnul hzero hname] at he
        rcases List.mem_cons.mp he with rfl | he
        · exact ⟨_, rfl⟩
        · exact ⟨_, List.mem_singleton.mp he⟩
      · rw [scanEntriesLog_passed hnul (not_or.mpr ⟨hzero, hname⟩), emit_bind] at he
        rcases List.mem_cons.mp he with rfl | he
        · exact ⟨_, rfl⟩
        · exact ih he

section

variable {sb : SuperBlock} {k : Machine} {dir : Addr}

/-- The loop of a lookup. -/
abbrev scanOf (fuel : ℕ) (sb : SuperBlock) (k : Machine) (dir : Addr) :
    Logged RomfsEffect Fault (Option (BitVec 32)) :=
  scanEntriesLog (loaded sb k).mem (allocMem k).1 dir fuel 7
    (firstOffset (loaded sb k).mem (allocMem k).1)

theorem mem_romfsNameiLog (hsize : sb.device.storageSize ≠ 0)
    (hnul : ∃ z, (loaded sb k).mem z = 0) (fuel : ℕ) (e : RomfsEffect) :
    e ∈ (romfsNameiLog fuel sb k dir).log ↔
      e = .alloc (allocMem k).1 ∨ e = .dout (allocMem k).1 sb.device.storageSize ∨
        e ∈ (scanOf fuel sb k dir).log ∨
        ∃ found, (scanOf fuel sb k dir).result = .ok found ∧
          e ∈ (returnInodeLog sb (loaded sb k) (allocMem k).1 dir found).log := by
  rw [romfsNameiLog_disk hsize hnul, emit_bind, emit_bind, List.mem_cons, List.mem_cons,
    mem_log_bind]

theorem loaded_used : (loaded sb k).memoryUsed = (allocMem k).2.memoryUsed := rfl

/-- The lookup tests the header with the name, or the end mark without having found it. -/
def LookupFound (sb : SuperBlock) (k : Machine) (dir : Addr) : Prop :=
  ∃ n, FoundAt (loaded sb k).mem (allocMem k).1 dir (firstOffset (loaded sb k).mem (allocMem k).1) n

def LookupAbsent (sb : SuperBlock) (k : Machine) (dir : Addr) : Prop :=
  ∃ n, AbsentAt (loaded sb k).mem (allocMem k).1 dir
    (firstOffset (loaded sb k).mem (allocMem k).1) n

/-- The name is not there: the block for the copy stays marked. -/
theorem absent_used (hsize : sb.device.storageSize ≠ 0) (hnul : ∃ z, (loaded sb k).mem z = 0)
    (h : LookupAbsent sb k dir) :
    ∃ fuel, (romfsNameiLog fuel sb k dir).result = .ok (loaded sb k, 0) := by
  obtain ⟨n, hn⟩ := h
  refine ⟨n + 1, (romfsNameiLog_result hsize hnul (n + 1) _).mpr ⟨none, ?_, rfl⟩⟩
  exact (scanEntriesLog_none hnul 7).mpr ⟨n, Nat.lt_succ_self n, hn⟩

/-- A null pointer behind the loop is that of the inode. -/
theorem returnInodeLog_null (hnul : ∃ z, k.mem z = 0) {buf : Addr} {off : BitVec 32}
    {e : RomfsEffect} (he : e ∈ (returnInodeLog sb k buf dir (some off)).log)
    (hnull : e.ThroughNull) : (allocMem k).1 = 0 := by
  obtain ⟨t, ht⟩ := exists_isStr hnul dir
  rw [returnInodeLog, (fillInodeLog_name ht).1] at he
  simp only [List.mem_cons, List.not_mem_nil, or_false] at he
  rcases he with rfl | rfl | rfl | rfl | rfl | rfl | rfl
  · exact absurd hnull id
  · exact absurd hnull id
  · exact absurd hnull id
  all_goals exact hnull

/-- The name is there: the inode is filled, whether or not there is a block for it. -/
theorem found_store (hsize : sb.device.storageSize ≠ 0) (hnul : ∃ z, (loaded sb k).mem z = 0)
    (h : LookupFound sb k dir) :
    ∃ fuel, .store (allocMem (loaded sb k)).1 offFnName ∈ (romfsNameiLog fuel sb k dir).log := by
  obtain ⟨n, hn⟩ := h
  obtain ⟨t, ht⟩ := exists_isStr hnul dir
  have hscan := (scanEntriesLog_some hnul 7).mpr ⟨n, Nat.lt_succ_self n, hn, rfl⟩
  refine ⟨n + 1, (mem_romfsNameiLog hsize hnul (n + 1) _).mpr
    (.inr (.inr (.inr ⟨_, hscan, ?_⟩)))⟩
  rw [returnInodeLog, (fillInodeLog_name ht).1]
  simp

/-- What a lookup that is not absent, and that has a block wherever it needs one, does. -/
theorem noTrace_of_blocks (hsize : sb.device.storageSize ≠ 0)
    (hnul : ∃ z, (loaded sb k).mem z = 0) (hbuf : (allocMem k).1 ≠ 0)
    (habsent : ¬ LookupAbsent sb k dir)
    (hinode : LookupFound sb k dir → (allocMem (loaded sb k)).1 ≠ 0) (fuel : ℕ) :
    NoTrace fuel sb k dir := by
  -- a loop that returns has found a header, and there is a block for the inode
  have hres : ∀ found, (scanOf fuel sb k dir).result = .ok found →
      found ≠ none ∧ (allocMem (loaded sb k)).1 ≠ 0 := by
    intro found hfound
    cases found with
    | none =>
      obtain ⟨n, _, hn⟩ := (scanEntriesLog_none hnul 7).mp hfound
      exact absurd ⟨n, hn⟩ habsent
    | some off =>
      obtain ⟨n, _, hn, _⟩ := (scanEntriesLog_some hnul 7).mp hfound
      exact ⟨by simp, hinode ⟨n, hn⟩⟩
  refine ⟨fun k' h => ?_, fun e he hnull => ?_⟩
  · obtain ⟨found, hfound, hret⟩ := (romfsNameiLog_result hsize hnul fuel _).mp h
    obtain ⟨hsome, hne⟩ := hres found hfound
    obtain ⟨k'', hk''⟩ := returnInodeLog_ok hnul sb (allocMem k).1 dir found
    rw [hk'', if_neg hsome, Except.ok.injEq, Prod.mk.injEq] at hret
    exact absurd hret.2 hne
  · rcases (mem_romfsNameiLog hsize hnul fuel e).mp he with rfl | rfl | he | ⟨found, hfound, he⟩
    · exact hnull
    · exact hbuf hnull.1
    · obtain ⟨out, rfl⟩ := scanEntriesLog_screen hnul he
      exact hnull
    · obtain ⟨hsome, hne⟩ := hres found hfound
      obtain ⟨off, rfl⟩ := Option.ne_none_iff_exists'.mp hsome
      exact hne (returnInodeLog_null hnul he hnull)

/-- An empty device: the lookup returns 0, and keeps the block if it got one. -/
theorem noTrace_empty (hsize : sb.device.storageSize = 0) (fuel : ℕ) :
    NoTrace fuel sb k dir ↔ freeBlocks k.memoryUsed = 0 := by
  have hempty := romfsNameiLog_empty hsize k dir fuel
  rw [← allocMem_used_eq]
  constructor
  · intro h
    apply h.unchanged (loaded sb k)
    rw [hempty]
  · intro hused
    refine ⟨fun k' h => ?_, fun e he hnull => ?_⟩
    · rw [hempty, Except.ok.injEq, Prod.mk.injEq] at h
      rw [← h.1]
      exact hused
    · rw [hempty] at he
      simp only [List.mem_cons, List.not_mem_nil, or_false] at he
      rcases he with rfl | rfl
      · exact hnull
      · exact hnull.2 hsize

/-- A lookup leaves no trace when it fails, and uses no null pointer, if and only if it does
    not fail: there is a block for the copy, the end mark is not reached without the name,
    and there is a block for the inode. (On an empty device, which holds no image: if no
    block is free.) -/
theorem namei_no_trace_iff (sb : SuperBlock) (k : Machine) (dir : Addr)
    (hnul : ∃ z, (loaded sb k).mem z = 0) :
    (∀ fuel, NoTrace fuel sb k dir) ↔
      if sb.device.storageSize = 0 then freeBlocks k.memoryUsed = 0
      else (allocMem k).1 ≠ 0 ∧ ¬ LookupAbsent sb k dir ∧
        (LookupFound sb k dir → (allocMem (loaded sb k)).1 ≠ 0) := by
  by_cases hsize : sb.device.storageSize = 0
  · rw [if_pos hsize]
    exact ⟨fun h => (noTrace_empty hsize 0).mp (h 0), fun h fuel => (noTrace_empty hsize fuel).mpr h⟩
  · rw [if_neg hsize]
    constructor
    · intro h
      have hbuf : (allocMem k).1 ≠ 0 := by
        intro hnull
        exact (h 0).nonnull _ ((mem_romfsNameiLog hsize hnul 0 _).mpr (.inr (.inl rfl)))
          ⟨hnull, hsize⟩
      refine ⟨hbuf, fun habsent => ?_, fun hfound hnull => ?_⟩
      · obtain ⟨fuel, hres⟩ := absent_used hsize hnul habsent
        exact allocMem_used_ne hbuf ((h fuel).unchanged (loaded sb k) hres)
      · obtain ⟨fuel, hmem⟩ := found_store hsize hnul hfound
        exact (h fuel).nonnull _ hmem hnull
    · intro ⟨hbuf, habsent, hinode⟩
      exact noTrace_of_blocks hsize hnul hbuf habsent hinode

end

/-! ### The sample image -/

theorem namei_no_trace_iff_echo :
    (∃ z, (loaded (diskSb 192) (diskMachine sampleRomBytes echoName)).mem z = 0) ∧
      ∀ fuel, NoTrace fuel (diskSb 192) (diskMachine sampleRomBytes echoName) 0x300000 := by
  have hnul : ∃ z, (loaded (diskSb 192) (diskMachine sampleRomBytes echoName)).mem z = 0 := by
    rw [sampleMem_eq]
    exact ⟨0x300004, sampleMem_echo.2.2.2.nul⟩
  refine ⟨hnul, ?_⟩
  have hfits : Fits (diskMachine sampleRomBytes echoName).mmStart := by decide
  have hfree : 2 ≤ freeBlocks (diskMachine sampleRomBytes echoName).memoryUsed := by decide
  obtain ⟨htested, hname⟩ := sampleMem_found
  refine (namei_no_trace_iff _ _ _ hnul).mpr ?_
  rw [if_neg (by decide)]
  refine ⟨?_, ?_, fun _ => (loaded_inode (diskSb 192) hfits).mpr hfree⟩
  · rw [diskMachine_buf]
    decide
  · rintro ⟨n, hr, _, hno⟩
    cases n with
    | zero =>
      apply hno
      change HasName _ _ _ (testedOf (diskSb 192) (diskMachine sampleRomBytes echoName) 0)
      rw [htested]
      exact hname
    | succ n =>
      apply hr 0 (Nat.succ_pos n)
      change EndsAt _ _ _ (testedOf (diskSb 192) (diskMachine sampleRomBytes echoName) 0)
      rw [htested]
      exact .inr hname

theorem sampleMem_cat :
    IsStr (sampleMem catName) (0x1000000 + 16) romName ∧
      nextHeader (sampleMem catName) 0x1000000 32 = 64 ∧
      nextHeader (sampleMem catName) 0x1000000 64 = 0 ∧
      IsStr (sampleMem catName) (0x1000000 + (64 + 16)) echoName ∧
      IsStr (sampleMem catName) (0x1000000 + (0 + 16)) romName ∧
      IsStr (sampleMem catName) 0x300000 catName := by decide

/-- The lookup of `cat` returns 0 and its block stays marked. With all bits set, the ramdisk
    is copied to 0. -/
theorem absent_name_keeps_block :
    (∃ fuel k', (romfsNameiLog fuel (diskSb 192) (diskMachine sampleRomBytes catName)
        0x300000).result = .ok (k', 0) ∧
      (diskMachine sampleRomBytes catName).memoryUsed = 0 ∧ k'.memoryUsed = 1) ∧
    ∀ fuel, .dout 0 192 ∈ (romfsNameiLog fuel (diskSb 192)
      { diskMachine sampleRomBytes catName with memoryUsed := BitVec.allOnes 32 } 0x300000).log := by
  obtain ⟨hvol, hfirst, hlast, hecho, hrom, hcat⟩ := sampleMem_cat
  have hnul : ∃ z, (loaded (diskSb 192) (diskMachine sampleRomBytes catName)).mem z = 0 := by
    rw [sampleMem_eq]
    exact ⟨_, hcat.nul⟩
  have hno : ∀ {off s}, IsStr (sampleMem catName) (0x1000000 + (off + 16)) s → s ≠ catName →
      ¬ HasName (sampleMem catName) 0x1000000 0x300000 off := by
    rintro off s hs hne ⟨t, ht, ht'⟩
    rw [hs.unique ht, ht'.unique hcat] at hne
    exact hne rfl
  have habsent : AbsentAt (sampleMem catName) 0x1000000 0x300000 32 1 := by
    have htested : tested (sampleMem catName) 0x1000000 32 1 = 0 := by
      change nextHeader _ _ (nextHeader _ _ 32) = 0
      rw [hfirst, hlast]
    refine ⟨reaches_succ.mpr ⟨?_, reaches_zero⟩, htested, ?_⟩
    · rw [hfirst]
      exact not_or.mpr ⟨by decide, hno hecho (by decide)⟩
    · rw [htested]
      exact hno hrom (by decide)
  have hlookup : LookupAbsent (diskSb 192) (diskMachine sampleRomBytes catName) 0x300000 := by
    refine ⟨1, ?_⟩
    rw [sampleMem_eq, diskMachine_buf, firstOffset_rom hvol]
    exact habsent
  constructor
  · obtain ⟨fuel, hres⟩ := absent_used (by decide) hnul hlookup
    refine ⟨fuel, _, hres, rfl, ?_⟩
    rw [loaded_used]
    decide
  · intro fuel
    exact .tail _ (.head _)

end SimpleOs
