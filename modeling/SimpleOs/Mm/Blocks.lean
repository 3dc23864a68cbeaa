import SimpleOs.Mm.Slots
import SimpleOs.Fs.Load

/-!
# The blocks over process life cycles

`do_fork` takes a block and nothing gives it back; `romfs_namei` takes two and
gives back the buffer when it finds the name, and none when it does not. Every
such call therefore leaves `memory_used` (mm/mm.c:11) with one bit more, until
all 32 are set.

* `lifeRun_blocks`: the bitmap is kept in every run in which these calls come
  when the allocator has nothing to give.
-/

namespace SimpleOs

open ByteMem Transition Bitmap

/-! ## The lookup -/

/-- What the loop of `romfs_namei` finds. -/
def lookupResult (sb : SuperBlock) (k : Machine) (dir : Addr) :
    Except Fault (Option (BitVec 32)) := do
  let volumeLen ← sStrlen (loaded sb k).mem ((allocMem k).1 + 16)
  scanEntries (loaded sb k).mem (allocMem k).1 dir (2 ^ 28 + 2) 7
    (getNext16Boundary (volumeLen + 0x10))

/-- `romfs_namei` finds `dir`. -/
def NameFound (sb : SuperBlock) (k : Machine) (dir : Addr) : Prop :=
  sb.device.storageSize ≠ 0 ∧ ∃ off, lookupResult sb k dir = .ok (some off)

section

variable {sb : SuperBlock} {k k' : Machine} {dir inode : Addr}

/-- A lookup that returns. -/
theorem romfsNamei_cases (h : romfsNamei sb k dir = .ok (k', inode)) :
    (NameFound sb k dir ∧
      ∃ off, fillInode sb (loaded sb k) (allocMem k).1 dir off = .ok (k', inode)) ∨
    (¬ NameFound sb k dir ∧ k' = loaded sb k) := by
  unfold romfsNamei at h
  dsimp only at h
  split_ifs at h with hsize
  · obtain ⟨rfl, _⟩ := Prod.mk.inj (Except.ok.inj h)
    exact .inr ⟨fun hf => hf.1 hsize, rfl⟩
  · simp only [bind_eq_ok] at h
    obtain ⟨volumeLen, hlen, res, hscan, h⟩ := h
    have hres : lookupResult sb k dir = .ok res := by
      unfold lookupResult
      rw [bind_eq_ok]
      exact ⟨volumeLen, hlen, hscan⟩
    cases res with
    | some off => exact .inl ⟨⟨hsize, off, hres⟩, off, h⟩
    | none =>
      obtain ⟨rfl, _⟩ := Prod.mk.inj (Except.ok.inj h)
      refine .inr ⟨fun hf => ?_, rfl⟩
      obtain ⟨_, off, hoff⟩ := hf
      rw [hres] at hoff
      cases hoff

/-- With nothing to allocate a lookup leaves the bitmap as it is; with one block
    it does if it finds the name, since the inode gets no block. -/
theorem romfsNamei_bitmap (hfits : Fits k.mmStart) (h : romfsNamei sb k dir = .ok (k', inode))
    (hfree : freeBlocks k.memoryUsed = 0 ∨ freeBlocks k.memoryUsed = 1 ∧ NameFound sb k dir) :
    k'.memoryUsed = k.memoryUsed ∧ k'.mmStart = k.mmStart := by
  have hstart := loaded_mmStart sb k
  have hused : (loaded sb k).memoryUsed = (allocMem k).2.memoryUsed := rfl
  rcases romfsNamei_cases h with ⟨hfinds, off, hfill⟩ | ⟨hnot, rfl⟩
  · obtain ⟨_, hused', hstart'⟩ := fillInode_bitmap hfill
    refine ⟨?_, hstart'.trans hstart⟩
    rw [hused']
    rcases hfree with hzero | ⟨hone, _⟩
    · have halloc := allocMem_full hzero
      have hfull : freeBlocks (loaded sb k).memoryUsed = 0 := by
        rw [hused, halloc]
        exact hzero
      rw [allocMem_full hfull, halloc, freeMem_zero, hused, halloc]
    · -- the buffer has the block, and gives it back
      have hfull : freeBlocks (loaded sb k).memoryUsed = 0 := by
        rw [hused, allocMem_freeBlocks, hone]
      rw [allocMem_full hfull]
      dsimp only
      obtain ⟨i, hi, hbuf⟩ := allocMem_some (k := k) (by omega)
      rw [hbuf]
      dsimp only
      rw [← hstart, freeMem_block (by rw [hstart]; exact hfits)]
      dsimp only
      rw [hused, hbuf]
      exact clear_set _ i hi
  · rcases hfree with hzero | ⟨_, hfinds⟩
    · rw [hused, hstart, allocMem_full hzero]
      exact ⟨rfl, rfl⟩
    · exact absurd hfinds hnot

/-- A block that is taken and given back. -/
theorem allocMem_freeMem (hfits : Fits k.mmStart) (mem : Mem) :
    (freeMem { (allocMem k).2 with mem := mem } (allocMem k).1).memoryUsed = k.memoryUsed := by
  rcases allocMem_cases k with ⟨i, hi, heq⟩ | ⟨_, heq⟩
  · rw [heq]
    dsimp only
    have hblock := freeMem_block (k := { k with
      mem := mem, memoryUsed := Bitmap.set k.memoryUsed i }) hfits i
    rw [hblock]
    exact clear_set _ i hi
  · rw [heq, freeMem_zero]

/-! ## What depends on the allocator only -/

theorem freeMem_congr (k₁ k₂ : Machine) (hused : k₁.memoryUsed = k₂.memoryUsed)
    (hstart : k₁.mmStart = k₂.mmStart) (a : Addr) :
    (freeMem k₁ a).memoryUsed = (freeMem k₂ a).memoryUsed := by
  unfold freeMem
  split_ifs
  · exact hused
  · dsimp only
    rw [hused, hstart]

theorem allocMem_congr {k₁ k₂ : Machine} (hused : k₁.memoryUsed = k₂.memoryUsed)
    (hstart : k₁.mmStart = k₂.mmStart) : (allocMem k₁).1 = (allocMem k₂).1 := by
  unfold allocMem
  rw [hused, hstart]
  cases findFreeArea k₂.memoryUsed with
  | mk i used =>
    cases i with
    | none => rfl
    | some i => rfl

theorem nameFound_congr {k₁ k₂ : Machine} (h : NameFound sb k₁ dir) (hmem : k₁.mem = k₂.mem)
    (hused : k₁.memoryUsed = k₂.memoryUsed) (hstart : k₁.mmStart = k₂.mmStart) :
    NameFound sb k₂ dir := by
  have hbuf := allocMem_congr hused hstart
  have hloaded : (loaded sb k₁).mem = (loaded sb k₂).mem := by
    unfold loaded
    dsimp only
    rw [hbuf, allocMem_snd k₁, allocMem_snd k₂]
    dsimp only
    rw [hmem]
  unfold NameFound lookupResult at *
  rw [hbuf, hloaded] at h
  exact h

/-! ## The steps of `task_mm` -/

variable {img : MmImage} {k₀ : Machine} {echo : Addr}

/-- `do_execl` gives back the block of the file; what the lookup took is gone. -/
theorem doExecl_bitmap (hfits : Fits k.mmStart) (hstart : k₀.mmStart = k.mmStart)
    (h : doExecl (romfsImage img sb echo k₀) k = .ok k')
    (hfree : freeBlocks k.memoryUsed = 0 ∨ freeBlocks k.memoryUsed = 1 ∧ NameFound sb k echo) :
    k'.memoryUsed = k.memoryUsed ∧ k'.mmStart = k.mmStart := by
  simp only [doExecl, bind_eq_ok, assert_eq_ok, exists_const, Except.ok.injEq] at h
  obtain ⟨_, ⟨mem, used, buf⟩, hecho, k₃, hload, p, _, rfl⟩ := h
  obtain ⟨mem', rfl⟩ := loadSegments_eq_ok hload
  simp only [romfsImage, readFile, bind_eq_ok, Except.ok.injEq, Prod.mk.injEq] at hecho
  obtain ⟨⟨_, _⟩, ⟨⟨k₁, inode⟩, hnamei, hfile⟩, rfl, rfl, rfl⟩ := hecho
  obtain ⟨rfl, rfl⟩ := Prod.mk.inj hfile
  have hfree₁ : freeBlocks k.memoryUsed = 0 ∨ freeBlocks k.memoryUsed = 1 ∧
      NameFound sb { k₀ with mem := k.mem, memoryUsed := k.memoryUsed } echo := by
    rcases hfree with hzero | ⟨hone, hfound⟩
    · exact .inl hzero
    · exact .inr ⟨hone, nameFound_congr hfound rfl rfl hstart.symm⟩
  have hbitmap := romfsNamei_bitmap (k := { k₀ with mem := k.mem, memoryUsed := k.memoryUsed })
    (by dsimp only; rw [hstart]; exact hfits) hnamei hfree₁
  have hfits₁ : Fits k₁.mmStart := by
    rw [hbitmap.2]
    dsimp only
    rw [hstart]
    exact hfits
  refine ⟨?_, ?_⟩
  · have hmm : (allocMem k₁).2.mmStart = k.mmStart := by
      rw [allocMem_snd]
      exact hbitmap.2.trans hstart
    have hback := (allocMem_freeMem hfits₁ mem').trans hbitmap.1
    have hsame := freeMem_congr
      { k with mem := mem', memoryUsed := (allocMem k₁).2.memoryUsed }
      { (allocMem k₁).2 with mem := mem' } rfl hmm.symm (allocMem k₁).1
    exact hsame.trans hback
  · unfold Machine.modify
    dsimp only
    rw [freeMem_mmStart]

/-- `do_fork` with nothing to allocate. -/
theorem doFork_bitmap {img : MmImage} {r : Option Pid} (h : doFork img k = .ok (k', r))
    (hfree : findFreeSlot k.procTable ≠ none → freeBlocks k.memoryUsed = 0) :
    k'.memoryUsed = k.memoryUsed ∧ k'.mmStart = k.mmStart := by
  unfold doFork at h
  cases hslot : findFreeSlot k.procTable with
  | none =>
    simp only [hslot, Except.ok.injEq, Prod.mk.injEq] at h
    rw [← h.1]
    exact ⟨rfl, rfl⟩
  | some child =>
    have hzero := hfree (by rw [hslot]; nofun)
    simp only [hslot, bind_eq_ok, assert_eq_ok, exists_const, Except.ok.injEq, Prod.mk.injEq] at h
    obtain ⟨_, pid, _, _, rfl, _⟩ := h
    dsimp only
    rw [allocMem_full (by exact hzero)]
    exact ⟨rfl, rfl⟩

/-- A system call does not allocate. -/
theorem sysSendrec_bitmap {function srcDest : ℤ} {m : Addr} {p : Pid}
    (h : sysSendrec k function srcDest m p = .ok k') :
    k'.memoryUsed = k.memoryUsed ∧ k'.mmStart = k.mmStart := by
  rcases sysSendrec_outcome h with ⟨d, _, _, _, _, hout⟩ | ⟨_, _, hout⟩
  · cases hout with
    | deliver _ _ _ _ => exact ⟨rfl, rfl⟩
    | enqueue _ _ _ _ _ => exact ⟨rfl, rfl⟩
  · cases hout with
    | interrupt _ _ => exact ⟨rfl, rfl⟩
    | take _ _ _ _ _ => exact ⟨rfl, rfl⟩
    | wait _ _ _ => exact ⟨rfl, rfl⟩

end

/-- The condition on a step of `task_mm`: a FORK for which there is a slot comes
    when no block is free, and so does an EXEC, unless one is free and the
    lookup succeeds. -/
def BlockSafe (img : MmImage) (sb : SuperBlock) (echo : Addr) (s : MmState) : Prop :=
  s.pc = .dispatch →
    (mmType img s.k = FORK → findFreeSlot s.k.procTable ≠ none →
      freeBlocks s.k.memoryUsed = 0) ∧
    (mmType img s.k = EXEC → freeBlocks s.k.memoryUsed = 0 ∨
      freeBlocks s.k.memoryUsed = 1 ∧ NameFound sb s.k echo)

section

variable {img : MmImage} {sb : SuperBlock} {k₀ : Machine} {echo : Addr} {s s' : MmState}

/-- The other requests take no block. -/
theorem MmOutcome.bitmap_kept {k k' : Machine} {pc' : MmPc} (h : MmOutcome img k .dispatch k' pc')
    (hfork : mmType img k ≠ FORK) (hexec : mmType img k ≠ EXEC) :
    k'.memoryUsed = k.memoryUsed ∧ k'.mmStart = k.mmStart := by
  cases h with
  | fork _ _ _ htype _ _ _ => exact absurd htype hfork
  | exec _ _ _ _ _ htype _ => exact absurd htype hexec
  | _ => exact ⟨rfl, rfl⟩

theorem mmDispatch_bitmap {eax : BitVec 32} {k k' : Machine} {pc' : MmPc}
    (hfits : Fits k.mmStart) (hstart : k₀.mmStart = k.mmStart)
    (hsafe : BlockSafe img sb echo ⟨k, .dispatch⟩)
    (h : mmDispatch (romfsImage img sb echo k₀) eax k = .ok (k', pc')) :
    k'.memoryUsed = k.memoryUsed ∧ k'.mmStart = k.mmStart := by
  obtain ⟨hfork, hexec⟩ := hsafe rfl
  simp only [mmDispatch] at h
  split_ifs at h with htfork htexit htwait htexec
  · simp only [bind_eq_ok] at h
    obtain ⟨⟨k₁, r⟩, hf, h⟩ := h
    have hbitmap := doFork_bitmap hf (hfork htfork)
    cases r with
    | some child =>
      obtain ⟨rfl, _⟩ := Prod.mk.inj (Except.ok.inj h)
      exact hbitmap
    | none =>
      obtain ⟨rfl, _⟩ := Prod.mk.inj (Except.ok.inj h)
      exact hbitmap
  · refine (doExit_outcome htexit h).bitmap_kept ?_ ?_
    · rw [htexit]
      decide
    · rw [htexit]
      decide
  · refine (doWait_outcome htwait h).bitmap_kept ?_ ?_
    · rw [htwait]
      decide
    · rw [htwait]
      decide
  · simp only [bind_eq_ok, Except.ok.injEq, Prod.mk.injEq] at h
    obtain ⟨k₁, he, rfl, _⟩ := h
    exact doExecl_bitmap hfits hstart he (hexec htexec)

/-- A step of `task_mm` under the condition. -/
theorem mmStep_bitmap {eax : BitVec 32} {k' : Machine} {pc' : MmPc} (hfits : Fits s.k.mmStart)
    (hstart : k₀.mmStart = s.k.mmStart) (hsafe : BlockSafe img sb echo s)
    (h : mmStep (romfsImage img sb echo k₀) eax s.k s.pc = .ok (k', pc')) :
    k'.memoryUsed = s.k.memoryUsed ∧ k'.mmStart = s.k.mmStart := by
  obtain ⟨k, pc⟩ := s
  dsimp only at hfits hstart h
  cases pc with
  | dispatch => exact mmDispatch_bitmap hfits hstart hsafe h
  | receive =>
    simp only [mmStep, bind_eq_ok, Except.ok.injEq, Prod.mk.injEq] at h
    obtain ⟨k₁, hcall, rfl, _⟩ := h
    have hkept := sysSendrec_bitmap hcall
    exact hkept
  | forkSend src child =>
    simp only [mmStep, mmSend, bind_eq_ok, Except.ok.injEq, Prod.mk.injEq] at h
    obtain ⟨k₁, hcall, rfl, _⟩ := h
    have hkept := sysSendrec_bitmap hcall
    exact hkept
  | cleanupSend proc ret =>
    simp only [mmStep, cleanupSend, mmSend, bind_eq_ok, Except.ok.injEq, Prod.mk.injEq] at h
    obtain ⟨k₁, hcall, rfl, _⟩ := h
    have hkept := sysSendrec_bitmap hcall
    exact hkept
  | cleanupFree proc ret =>
    cases mmStep_outcome h with
    | cleanupFree _ _ => exact ⟨rfl, rfl⟩
  | exitScan pid i =>
    cases mmStep_outcome h with
    | scanFound _ _ _ _ => exact ⟨rfl, rfl⟩
    | scanDone _ _ _ => exact ⟨rfl, rfl⟩
  | waitNone pid =>
    simp only [mmStep, mmSend, bind_eq_ok, Except.ok.injEq, Prod.mk.injEq] at h
    obtain ⟨k₁, hcall, rfl, _⟩ := h
    have hkept := sysSendrec_bitmap hcall
    exact hkept
  | reply src retval =>
    simp only [mmStep, mmSend, bind_eq_ok, Except.ok.injEq, Prod.mk.injEq] at h
    obtain ⟨k₁, hcall, rfl, _⟩ := h
    have hkept := sysSendrec_bitmap hcall
    exact hkept

theorem LifeStep.bitmap (hfits : Fits s.k.mmStart) (hstart : k₀.mmStart = s.k.mmStart)
    (h : LifeStep (romfsImage img sb echo k₀) (BlockSafe img sb echo) s s') :
    s'.k.memoryUsed = s.k.memoryUsed ∧ s'.k.mmStart = s.k.mmStart := by
  cases h with
  | user _ _ _ _ _ _ hcall => exact sysSendrec_bitmap hcall
  | task _ hsafe _ hstep => exact mmStep_bitmap hfits hstart hsafe hstep
  | other _ _ hused hstart' => exact ⟨hused, hstart'⟩

end

/-! ## Whole runs -/

/-- In every run whose steps meet the condition, from whatever state it begins
    in, `memory_used` stays what it was: at its end, and behind every EXEC. -/
theorem lifeRun_blocks {img : MmImage} {sb : SuperBlock} {echo : Addr} {s₀ s : MmState}
    (hfits : Fits s₀.k.mmStart)
    (h : Reachable (fun s => s = s₀) (LifeStep (romfsImage img sb echo s₀.k)
      (BlockSafe img sb echo)) s) :
    s.k.memoryUsed = s₀.k.memoryUsed := by
  have hinv : s.k.memoryUsed = s₀.k.memoryUsed ∧ s.k.mmStart = s₀.k.mmStart := by
    refine h.invariant (I := fun s => s.k.memoryUsed = s₀.k.memoryUsed ∧
      s.k.mmStart = s₀.k.mmStart) (fun s h0 => ?_) fun s s' hI hs => ?_
    · rw [h0]
      exact ⟨rfl, rfl⟩
    · have hstep := hs.bitmap (by rw [hI.2]; exact hfits) hI.2.symm
      exact ⟨hstep.1.trans hI.1, hstep.2.trans hI.2⟩
  exact hinv.1

/-- With every block taken, INIT forks. -/
def fullMachine : Machine := { requestMachine 3 with memoryUsed := 0xffffffff }

theorem lifeRun_blocks_full :
    ∃ s : MmState, s.pc = .forkSend 3 7 ∧ s.k.memoryUsed = 0xffffffff := by
  have hrun : ∃ s : MmState, s.pc = .forkSend 3 7 ∧
      Reachable (fun s => s = ⟨fullMachine, .receive⟩)
        (LifeStep (romfsImage sampleMmImage sampleSb 0x300000 fullMachine)
          (BlockSafe sampleMmImage sampleSb 0x300000)) s := by
    refine ⟨_, rfl, .step (.step (.step (.init rfl)
      (.task 0 (fun hpc => absurd hpc (by nofun)) rfl rfl))
      (.user INIT SEND (proc2pid TASK_MM) 0x1000 (by decide) rfl rfl))
      (.task 0 (fun _ => ⟨fun _ _ => by decide, fun hexec => absurd hexec (by decide)⟩) rfl rfl)⟩
  obtain ⟨s, hpc, hs⟩ := hrun
  exact ⟨s, hpc, lifeRun_blocks (by decide) hs⟩

/-! ### A child comes and goes -/

theorem block_lost :
    ∃ s, Reachable (fun s => s = ⟨requestMachine 3, .receive⟩)
        (LifeStep (romfsImage sampleMmImage sampleSb 0x300000 (requestMachine 3)) fun _ => True) s ∧
      (∀ p, Forkable p → ¬ Occupied (s.k.procTable p)) ∧
      s.k.memoryUsed ≠ (requestMachine 3).memoryUsed := by
  obtain ⟨s, hs, hfree, hused⟩ := MmState.exists_life
    (romfsImage sampleMmImage sampleSb 0x300000 (requestMachine 3))
    (fun s => s = ⟨requestMachine 3, .receive⟩) rfl (fun _ => True) forkWaitExit
    (fun s => (∀ p, Forkable p → ¬ Occupied (s.k.procTable p)) ∧
      s.k.memoryUsed ≠ (requestMachine 3).memoryUsed) (by decide +kernel)
  exact ⟨s, hs, hfree, hused⟩

end SimpleOs
