import SimpleOs.Kernel.Progress
import SimpleOs.Mm.Descriptor
import SimpleOs.Mm.Duplicate

/-!
# Address translation

The base of a data segment is written in three places (process.c:437, 463; mm/mm.c:180) and
taken apart again in three (process.c:603-607, include/protect.h:80-86, mm/mm.c:158).

* `mmRun_va2la`: in every state of every run `va2la` adds the base that was written.
-/

namespace SimpleOs

open ByteMem Transition

/-! ## The three writers -/

/-- The data descriptor of the slot `p` and the base that it was written with. -/
inductive DataWritten (p : Pid) : Descriptor → BitVec 32 → Prop
  /-- `gdt[SELECTOR_KERNEL_DS >> 3]`, but for the privilege. -/
  | copied (hnative : ¬ Forkable p) (hinit : taskName p ≠ "INIT") (attr1 : BitVec 8) :
    DataWritten p { gdtKernelDs with attr1 := attr1 } 0
  | initProc (hnative : ¬ Forkable p) (hinit : taskName p = "INIT") (limit : BitVec 32)
    (attr : BitVec 16) : DataWritten p (initDescriptor 0 limit attr) 0
  | doFork (hforked : Forkable p) (limit : BitVec 32) (attr : BitVec 16) :
    DataWritten p (initDescriptor childBase limit attr) childBase

theorem dataWritten_nativeLdt {p : Pid} (hp : ¬ Forkable p) :
    DataWritten p (nativeLdt p).2 0 := by
  unfold nativeLdt
  dsimp only
  by_cases hinit : taskName p ≠ "INIT"
  · rw [if_pos hinit]
    exact .copied hp hinit _
  · rw [if_neg hinit]
    exact .initProc hp (not_not.mp hinit) _ _

theorem DataWritten.base {p : Pid} {d : Descriptor} {base : BitVec 32} (h : DataWritten p d base) :
    ldtSegLinear d = base := by
  cases h with
  | copied _ _ attr1 =>
    show ldtSegLinear gdtKernelDs = 0
    decide
  | initProc _ _ limit attr => exact ldtSegLinear_initDescriptor 0 limit attr
  | doFork _ limit attr => exact ldtSegLinear_initDescriptor childBase limit attr

theorem DataWritten.of_forkable {p : Pid} {d : Descriptor} {base : BitVec 32}
    (h : DataWritten p d base) (hp : Forkable p) : base = childBase := by
  cases h with
  | copied hnative => exact absurd hp hnative
  | initProc hnative => exact absurd hp hnative
  | doFork => rfl

/-! ## The three readers -/

/-- `ldt_seg_linear`, `seg2base` and `do_fork` find one base in a descriptor. -/
theorem decoders_agree (base limit : BitVec 32) (attr : BitVec 16) :
    ldtSegLinear (initDescriptor base limit attr) = base ∧
      segBase (initDescriptor base limit attr) = base ∧
      ∀ (gdt : Gdt) (seg : BitVec 16), gdt (seg >>> 3).toNat = initDescriptor base limit attr →
        seg2base gdt seg = base := by
  refine ⟨ldtSegLinear_initDescriptor base limit attr, segBase_initDescriptor base limit attr, ?_⟩
  intro gdt seg hseg
  unfold seg2base
  rw [hseg]
  exact ldtSegLinear_initDescriptor base limit attr

/-! ## Whole runs -/

section Runs

variable {t : ProcTable}

theorem DataSegs.written (h : DataSegs t) {p : Pid} (hp : ¬ Forkable p ∨ Occupied (t p)) :
    ∃ base, DataWritten p (t p).ldtData base := by
  by_cases hforked : Forkable p
  · rw [h.forked p hforked (hp.resolve_left (not_not.mpr hforked))]
    exact ⟨childBase, .doFork hforked _ _⟩
  · rw [h.native p hforked]
    exact ⟨0, dataWritten_nativeLdt hforked⟩

theorem DataSegs.nativeFlat (h : DataSegs t) : NativeFlat t := by
  intro p hp
  have hnative : ¬ Forkable p := by
    unfold Forkable
    unfold proc2pid at hp
    omega
  rw [h.native p hnative]
  exact (dataWritten_nativeLdt hnative).base

/-- In every state of every run: the data descriptor of every process was written with some
    base, and `va2la` adds it to whatever address it is given; for the native processes, where
    it asserts so, this is the address itself. The three ways to take the base out of a
    descriptor agree on all that `init_descriptor` writes. -/
theorem mmRun_va2la {img : Image} {mimg : MmImage} {C : MmState → Prop} {s : MmState}
    (h : Reachable (MmBooted img) (MmSysStep mimg C) s) :
    (∀ p : Pid, ¬ Forkable p ∨ Occupied (s.k.procTable p) →
      ∃ base, DataWritten p (s.k.procTable p).ldtData base ∧
        ∀ va, va2la s.k (proc2pid p) va = .ok (base + va)) ∧
    (∀ p : Pid, proc2pid p < NR_TASKS + NR_NATIVE_PROCS →
      ∀ va, linear s.k.procTable p va = va ∧ va2la s.k (proc2pid p) va = .ok va) ∧
    ∀ base limit attr, ldtSegLinear (initDescriptor base limit attr) = base ∧
      segBase (initDescriptor base limit attr) = base ∧
      ∀ (gdt : Gdt) (seg : BitVec 16), gdt (seg >>> 3).toNat = initDescriptor base limit attr →
        seg2base gdt seg = base := by
  have hsegs := mmRun_dataSegs h
  have hflat := hsegs.nativeFlat
  refine ⟨fun p hp => ?_, fun p hp va => ?_, decoders_agree⟩
  · obtain ⟨base, hwritten⟩ := hsegs.written hp
    refine ⟨base, hwritten, fun va => ?_⟩
    rw [va2la_ok hflat, linear, hwritten.base]
  · have hla : linear s.k.procTable p va = va := by
      rw [linear, hflat p hp]
      exact BitVec.zero_add va
    rw [va2la_ok hflat, hla]
    exact ⟨rfl, rfl⟩

end Runs

/-! ### INIT and its first child -/

/-- INIT forks, and its child runs. -/
theorem mmRun_va2la_child : ∃ s : MmState, Occupied (s.k.procTable 7) ∧
    (∀ va, va2la s.k (proc2pid INIT) va = .ok va) ∧
    ∀ va, va2la s.k (proc2pid 7) va = .ok (childBase + va) := by
  obtain ⟨s, hs, hlive⟩ := MmState.exists_reachable sampleMmImage (requestMachine_booted 3)
    [.task, .user INIT SEND 2 0x1000, .task] (fun s => Occupied (s.k.procTable 7))
    (by decide)
  obtain ⟨hprocess, hnative, _⟩ := mmRun_va2la hs
  refine ⟨s, hlive, fun va => (hnative INIT (by decide) va).2, fun va => ?_⟩
  obtain ⟨base, hwritten, hla⟩ := hprocess 7 (.inr hlive)
  rw [hla va, hwritten.of_forkable (by decide)]

end SimpleOs
