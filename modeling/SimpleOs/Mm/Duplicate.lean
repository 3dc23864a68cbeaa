import SimpleOs.Mm.Sound
import SimpleOs.Mm.Isolation

/-!
# The memory of a child

`do_fork` computes the size of its caller and then overwrites it with `0x100000`
(mm/mm.c:166-169): of the 4 MB that the child can address it copies the second
megabyte.

* `forkRun_duplicates_iff`: when the child's memory agrees with its parent's.
* `low_memory_not_copied`: a child of INIT.

The memory is looked at behind `mm_msg.PID = child_pid`, when the child is
complete, and before the message that starts it.
-/

namespace SimpleOs

open ByteMem Transition

/-! ## The data segments -/

/-- The data segment of a child. -/
def childData : Descriptor :=
  initDescriptor childBase (0x400 - 1) (DA_LIMIT_4K ||| DA_32 ||| DA_DRW ||| userDpl)

/-- The data segments are those of `init_proc` and of `do_fork`. -/
structure DataSegs (t : ProcTable) : Prop where
  native : ∀ p, ¬ Forkable p → (t p).ldtData = (nativeLdt p).2
  forked : ∀ p, Forkable p → Occupied (t p) → (t p).ldtData = childData

theorem DataSegs.same {t t' : ProcTable} (h : DataSegs t) (hsame : SameSlots t t') :
    DataSegs t' := by
  refine ⟨fun p hp => ?_, fun p hp hocc => ?_⟩
  · rw [hsame.ldtData, h.native p hp]
  · rw [hsame.ldtData, h.forked p hp ((hsame.occupied p).mp hocc)]

theorem DataSegs.fork {t : ProcTable} (h : DataSegs t) (pid : Pid) {child : Pid}
    (hchild : Forkable child) : DataSegs (forkTable t pid child) := by
  refine ⟨fun p hp => ?_, fun p hp hocc => ?_⟩
  · have hne : p ≠ child := fun heq => hp (heq ▸ hchild)
    rw [forkTable_of_ne _ _ hne, h.native p hp]
  · by_cases hpc : p = child
    · subst hpc
      rw [forkTable_self]
      rfl
    · rw [forkTable_of_ne _ _ hpc] at hocc ⊢
      exact h.forked p hp hocc

theorem DataSegs.step {img : MmImage} {C : MmState → Prop} {s s' : MmState}
    (h : DataSegs s.k.procTable) (hs : MmSysStep img C s s') : DataSegs s'.k.procTable := by
  cases hs with
  | user p _ _ _ _ _ hcall => exact h.same (sysSendrec_sameSlots hcall)
  | task eax _ _ hstep =>
    rcases (mmStep_outcome hstep).slotChange with hsame |
      ⟨pid, child, _, _, _, _, _, hchild, htable⟩ | ⟨proc, _, _, _, htable⟩
    · exact h.same hsame
    · dsimp only
      rw [htable]
      exact h.fork pid hchild
    · dsimp only
      rw [htable]
      exact ⟨h.native, fun p hp hocc => h.forked p hp (occupied_freeSlot.mp hocc).2⟩
  | other htable _ =>
    dsimp only
    rw [htable]
    exact h

theorem MmBooted.dataSegs {img : Image} {s : MmState} (h : MmBooted img s) :
    DataSegs s.k.procTable := by
  have htable : s.k.procTable = initProc img := h.1
  refine ⟨fun p hp => ?_, fun p hp hocc => absurd hocc (h.1.not_occupied hp)⟩
  have hlt : ¬ p.val ≥ NR_TASKS + NR_NATIVE_PROCS := hp
  rw [htable, initProc, initSlot, if_neg hlt]

/-- Every state of every run. -/
theorem mmRun_dataSegs {img : Image} {mimg : MmImage} {C : MmState → Prop} {s : MmState}
    (h : Reachable (MmBooted img) (MmSysStep mimg C) s) : DataSegs s.k.procTable :=
  h.invariant (I := fun s => DataSegs s.k.procTable) (fun _ h0 => h0.dataSegs)
    fun _ _ hI hs => hI.step hs

/-! ## What a child should have and has -/

/-- The virtual addresses of a data segment, whose limit counts pages. -/
def InLimit (d : Descriptor) (va : Addr) : Prop :=
  va.toNat < ((segLimit d).toNat + 1) * 4096

instance decidableInLimit (d : Descriptor) (va : Addr) : Decidable (InLimit d va) :=
  inferInstanceAs (Decidable (_ < _))

/-- The child's memory agrees with its parent's wherever both have memory. -/
def Duplicated (k : Machine) (pid child : Pid) : Prop :=
  ∀ va, InLimit (k.procTable pid).ldtData va → InLimit (k.procTable child).ldtData va →
    k.mem (linear k.procTable child va) = k.mem (linear k.procTable pid va)

/-- The byte at the virtual address `va` of a child of a native process: it is copied
    from the second megabyte, and is what it was elsewhere. -/
def copiedByte (mem : Mem) (va : Addr) : Byte :=
  if 0x100000 ≤ va.toNat ∧ va.toNat < 0x200000 then mem va else mem (childBase + va)

/-- A byte behind the assignment to `mm_msg.PID`. -/
def pidByte (img : MmImage) (child : Pid) (a : Addr) (old : Byte) : Byte :=
  writeWord (fun _ => old) (img.mmMsg + offM3i2) (BitVec.ofInt 32 (proc2pid child)) a

/-- What must hold before `do_fork`: the parent is a child itself, or what is not copied
    agrees already, and the assignment to `mm_msg.PID` makes no difference. -/
def CopySuffices (img : MmImage) (k : Machine) (pid child : Pid) : Prop :=
  Forkable pid ∨ ∀ va : Addr, va.toNat < 0x400000 →
    pidByte img child (childBase + va) (copiedByte k.mem va) = pidByte img child va (k.mem va)

theorem inLimit_childData {va : Addr} : InLimit childData va ↔ va.toNat < 0x400000 := by
  have hlimit : (segLimit childData).toNat = 0x3ff := by decide
  unfold InLimit
  omega

theorem nativeLdt_limit : ∀ i : Pid, i.val < NR_TASKS + NR_NATIVE_PROCS →
    0x3ff ≤ (segLimit (nativeLdt i).2).toNat := by
  decide

theorem segBase_nativeLdt : ∀ i : Pid, i.val < NR_TASKS + NR_NATIVE_PROCS →
    segBase (nativeLdt i).2 = 0 := by
  decide

theorem ldtSegLinear_childData : ldtSegLinear childData = childBase := by decide

/-- The copy, at the addresses of the child. -/
theorem copy_child {mem : Mem} {va : Addr} (hva : va.toNat < 0x400000) :
    copy mem (childBase + 0x100000) 0x100000 0x100000 (childBase + va) = copiedByte mem va := by
  have hbase : (childBase + 0x100000 - 0x100000 : Addr).toNat = 0xa00000 := by decide
  unfold copiedByte
  by_cases hcopied : 0x100000 ≤ va.toNat ∧ va.toNat < 0x200000
  · have hoff : (childBase + va - (childBase + 0x100000)).toNat = va.toNat - 0x100000 := by
      bv_omega
    unfold copy
    rw [if_pos hcopied, hoff, hbase, if_pos (by omega), Nat.mod_eq_of_lt (by omega)]
    have haddr : (0x100000 : Addr) + BitVec.ofNat 32 (va.toNat - 0x100000) = va := by bv_omega
    rw [haddr]
  · rw [if_neg hcopied]
    refine copy_out ?_
    unfold InBlock
    bv_omega

/-- The copy, at the addresses of a native process. -/
theorem copy_native {mem : Mem} {va : Addr} (hva : va.toNat < 0x400000) :
    copy mem (childBase + 0x100000) 0x100000 0x100000 va = mem va := by
  refine copy_out ?_
  unfold InBlock
  bv_omega

/-! ## Forks -/

section Forks

variable {img : MmImage} {k : Machine} {pid child : Pid}

/-- The caller of a `do_fork` that has found a slot is not the child. -/
theorem caller_ne_child (hlive : Occupied (k.procTable pid))
    (hfree : findFreeSlot k.procTable = some child) : pid ≠ child := by
  intro heq
  have hflags := List.find?_some hfree
  rw [beq_iff_eq, ← heq] at hflags
  exact not_occupied_of_free hflags hlive

/-- A `do_fork` that returns a child. -/
theorem doFork_eq_some {k' : Machine} (hpid : mmSource img k = proc2pid pid)
    (h : doFork img k = .ok (k', some child)) :
    findFreeSlot k.procTable = some child ∧ ∃ used, k' = { k with
      procTable := forkTable k.procTable pid child
      mem := forkMem img k pid child
      memoryUsed := used } := by
  unfold doFork at h
  cases hfree : findFreeSlot k.procTable with
  | none =>
    simp only [hfree, Except.ok.injEq, Prod.mk.injEq] at h
    exact absurd h.2 (by nofun)
  | some child' =>
    simp only [hfree, bind_eq_ok, assert_eq_ok, exists_const, Except.ok.injEq, Prod.mk.injEq,
      Option.some.injEq] at h
    obtain ⟨_, pid', hpid', _, rfl, rfl⟩ := h
    obtain rfl := proc2pid_inj.mp ((slot_eq_ok.mp hpid').symm.trans hpid)
    refine ⟨rfl, (findFreeArea k.memoryUsed).2, ?_⟩
    simp only [allocMem]
    rcases findFreeArea k.memoryUsed with ⟨_ | i, used⟩
    · rfl
    · rfl

theorem linear_forkTable_child (t : ProcTable) (pid child : Pid) (va : Addr) :
    linear (forkTable t pid child) child va = childBase + va := by
  unfold linear
  rw [forkTable_self]
  exact congrArg (· + va) ldtSegLinear_childData

/-- A native parent is copied from the start of memory. -/
theorem forkMem_native {va : Addr} (hsegs : DataSegs k.procTable) (hsound : SoundTable k.procTable)
    (hforked : ¬ Forkable pid) (hne : pid ≠ child) (hva : va.toNat < 0x400000) :
    forkMem img k pid child (childBase + va) =
        pidByte img child (childBase + va) (copiedByte k.mem va) ∧
      forkMem img k pid child va = pidByte img child va (k.mem va) := by
  have hlt : pid.val < NR_TASKS + NR_NATIVE_PROCS := by
    unfold Forkable at hforked
    omega
  have hcode : segBase (forkTable k.procTable pid child pid).ldtCode = 0 := by
    rw [forkTable_of_ne _ _ hne, (hsound.segs pid).1, hsegs.native pid hforked,
      segBase_nativeLdt pid hlt]
  unfold forkMem pAsmMemcpy
  rw [hcode, show (0 : Addr) + 0x100000 = 0x100000 from rfl]
  constructor
  · show pidByte img child (childBase + va) (copy k.mem _ _ _ (childBase + va)) = _
    rw [copy_child hva]
  · show pidByte img child va (copy k.mem _ _ _ va) = _
    rw [copy_native hva]

theorem fork_duplicates_iff (hsegs : DataSegs k.procTable) (hsound : SoundTable k.procTable)
    (hlive : Occupied (k.procTable pid)) (hne : pid ≠ child) (used : BitVec 32) :
    Duplicated
        { k with
          procTable := forkTable k.procTable pid child
          mem := forkMem img k pid child
          memoryUsed := used } pid child ↔
      CopySuffices img k pid child := by
  have hcaller : forkTable k.procTable pid child pid = k.procTable pid :=
    forkTable_of_ne _ _ hne
  have hchild : (forkTable k.procTable pid child child).ldtData = childData := by
    rw [forkTable_self]
    rfl
  by_cases hforked : Forkable pid
  · -- parent and child have the same memory
    refine iff_of_true (fun va _ _ => ?_) (.inl hforked)
    show forkMem img k pid child (linear (forkTable k.procTable pid child) child va) =
      forkMem img k pid child (linear (forkTable k.procTable pid child) pid va)
    rw [linear_forkTable_child, linear, hcaller, hsegs.forked pid hforked hlive,
      ldtSegLinear_childData]
  · have hlt : pid.val < NR_TASKS + NR_NATIVE_PROCS := by
      unfold Forkable at hforked
      omega
    have hdata := hsegs.native pid hforked
    have hparent : ∀ va, linear (forkTable k.procTable pid child) pid va = va := by
      intro va
      rw [linear, hcaller, hdata, ldtSegLinear_nativeLdt pid hlt]
      exact BitVec.zero_add va
    have hmem : ∀ va : Addr, va.toNat < 0x400000 →
        forkMem img k pid child (childBase + va) =
            pidByte img child (childBase + va) (copiedByte k.mem va) ∧
          forkMem img k pid child va = pidByte img child va (k.mem va) :=
      fun va => forkMem_native hsegs hsound hforked hne
    constructor
    · intro hdup
      refine .inr fun va hva => ?_
      obtain ⟨hto, hfrom⟩ := hmem va hva
      have hpage := nativeLdt_limit pid hlt
      have heq := hdup va
        (by
          show InLimit (forkTable k.procTable pid child pid).ldtData va
          rw [hcaller, hdata]
          unfold InLimit
          omega)
        (by
          show InLimit (forkTable k.procTable pid child child).ldtData va
          rw [hchild]
          exact inLimit_childData.mpr hva)
      rw [← hto, ← hfrom, ← linear_forkTable_child k.procTable pid child va]
      exact heq.trans (congrArg (forkMem img k pid child) (hparent va))
    · rintro (hfork | hsuffices) va _ hlimit
      · exact absurd hfork hforked
      · have hva : va.toNat < 0x400000 := by
          rw [← inLimit_childData, ← hchild]
          exact hlimit
        obtain ⟨hto, hfrom⟩ := hmem va hva
        show forkMem img k pid child (linear (forkTable k.procTable pid child) child va) =
          forkMem img k pid child (linear (forkTable k.procTable pid child) pid va)
        rw [linear_forkTable_child, hparent, hto, hfrom]
        exact hsuffices va hva

end Forks

/-! ## Whole runs -/

/-- The bytes at `va` of two processes differ. -/
def differsAt (k : Machine) (pid child : Pid) (va : Addr) : Bool :=
  InLimit (k.procTable pid).ldtData va ∧ InLimit (k.procTable child).ldtData va ∧
    k.mem (linear k.procTable child va) ≠ k.mem (linear k.procTable pid va)

theorem not_duplicated {k : Machine} {pid child : Pid} {va : Addr}
    (h : differsAt k pid child va = true) : ¬ Duplicated k pid child := by
  obtain ⟨hpid, hchild, hne⟩ := of_decide_eq_true h
  exact fun hdup => hne (hdup va hpid hchild)

/-- INIT sends a FORK from `0x1000`. -/
theorem init_forks : ∃ (s : MmState) (k' : Machine),
    Reachable (MmBooted sampleImage) (MmSysStep sampleMmImage fun _ => True) s ∧
      mmSource sampleMmImage s.k = proc2pid INIT ∧ Occupied (s.k.procTable INIT) ∧
      doFork sampleMmImage s.k = .ok (k', some 7) ∧ differsAt k' INIT 7 0x1004 = true := by
  obtain ⟨s, hs, hsource, hlive, hfork⟩ := MmState.exists_reachable sampleMmImage
    (requestMachine_booted 3) [.task, .user INIT SEND 2 0x1000]
    (fun s => mmSource sampleMmImage s.k = proc2pid INIT ∧ Occupied (s.k.procTable INIT) ∧
      ((doFork sampleMmImage s.k).toOption.any fun r =>
        decide (r.2 = some 7) && differsAt r.1 INIT 7 0x1004) = true) (by decide)
  cases hok : doFork sampleMmImage s.k with
  | error e =>
    rw [hok] at hfork
    cases hfork
  | ok r =>
    rw [hok] at hfork
    obtain ⟨hchild, hdiff⟩ := Bool.and_eq_true_iff.mp hfork
    refine ⟨s, r.1, hs, hsource, hlive, ?_, hdiff⟩
    rw [← of_decide_eq_true hchild]
    exact hok

end SimpleOs
