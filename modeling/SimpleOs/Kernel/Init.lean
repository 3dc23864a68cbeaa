import SimpleOs.Kernel.Ipc

/-!
# `init_proc`

The process table the kernel starts with (process.c:386-523): three tasks and
four native processes, ready to run, and 28 free slots. The table lies in the
zeroed BSS, so a free slot is all zero but for `p_flags` and `ldt_sel`; in
particular its `p_recvfrom`, `p_sendto` and `p_parent` are 0, not `NO_TASK`.
-/

namespace SimpleOs

open ByteMem

/-- The addresses the linker assigns: `task_stack`, and the entry points of
    `task_table` and `user_proc_table` (process.c:371-384). -/
structure Image where
  taskStack : BitVec 32
  initEip : Pid → BitVec 32

/-- The names in `task_table` and `user_proc_table`. -/
def taskName (i : Pid) : String :=
  ["TTY", "SYS", "MM", "INIT", "proc a", "proc b", "proc c"].getD i.val ""

def StackFrame.zero : StackFrame := ⟨0, 0, 0, 0, 0, 0, 0, 0, 0, 0, 0, 0, 0, 0, 0, 0, 0, 0⟩
def Descriptor.zero : Descriptor := ⟨0, 0, 0, 0, 0, 0⟩

/-- A slot of `proc_table` in the zeroed BSS. -/
def Process.zero : Process where
  regs := .zero
  ldtSel := 0
  ldtCode := .zero
  ldtData := .zero
  pid := 0
  ttyIndex := 0
  pFlags := 0
  msg := 0
  pRecvfrom := 0
  pSendto := 0
  hasIntMsg := 0
  pParent := 0
  qSending := none
  nextSending := none
  exitStatus := 0
  name := ""

/-- `SELECTOR_LDT_FIRST + 8 * i`. -/
def ldtSelector (i : Pid) : BitVec 16 := 40 + 8 * BitVec.ofNat 16 i.val

/-- `PRIVILEGE_TASK`/`RPL_TASK` for the tasks, `PRIVILEGE_USER`/`RPL_USER` for
    the native processes. -/
def privilege (i : Pid) : ℕ := if i.val < NR_TASKS then 1 else 3

/-- The code and data descriptors of a native process (process.c:430-474):
    flat copies of the kernel's with the privilege changed, except for INIT. -/
def nativeLdt (i : Pid) : Descriptor × Descriptor :=
  let dpl : BitVec 16 := BitVec.ofNat 16 (privilege i) <<< 5
  if taskName i ≠ "INIT" then
    ({ gdtKernelCs with attr1 := (DA_C ||| dpl).setWidth 8 },
     { gdtKernelDs with attr1 := (DA_DRW ||| dpl).setWidth 8 })
  else
    (initDescriptor 0 0x600 (DA_32 ||| DA_LIMIT_4K ||| DA_C ||| dpl),
     initDescriptor 0 0x600 (DA_32 ||| DA_LIMIT_4K ||| DA_DRW ||| dpl))

/-- The registers of a native process (process.c:487-501). The stack top is
    advanced before the first use. -/
def nativeRegs (img : Image) (i : Pid) : StackFrame :=
  let rpl : BitVec 32 := BitVec.ofNat 32 (privilege i)
  { StackFrame.zero with
    cs := (0 &&& 0xfff8) ||| 4 ||| rpl
    ds := (8 &&& 0xfff8) ||| 4 ||| rpl
    es := (8 &&& 0xfff8) ||| 4 ||| rpl
    fs := (8 &&& 0xfff8) ||| 4 ||| rpl
    ss := (8 &&& 0xfff8) ||| 4 ||| rpl
    gs := ((24 + 3) &&& 0xfff8) ||| rpl
    eip := img.initEip i
    esp := img.taskStack + TASK_STACK * BitVec.ofNat 32 (i.val + 2)
    eflags := if i.val < NR_TASKS then 0x1202 else 0x202 }

/-- One round of the loop of `init_proc` (process.c:399-518), on the slot `p`
    with number `i`; `tty_index` includes the three assignments after the
    loop (process.c:520-522). -/
def initSlot (img : Image) (i : Pid) (p : Process) : Process :=
  if i.val ≥ NR_TASKS + NR_NATIVE_PROCS then
    { p with pFlags := FREE_SLOT, ldtSel := ldtSelector i }
  else
    { p with
      name := taskName i
      ldtCode := (nativeLdt i).1
      ldtData := (nativeLdt i).2
      pParent := NO_TASK
      ldtSel := ldtSelector i
      regs := nativeRegs img i
      pid := BitVec.ofNat 32 i.val
      ttyIndex := if i = 4 then 1 else if i = 5 then 2 else 0
      pFlags := 0
      msg := 0
      pRecvfrom := NO_TASK
      pSendto := NO_TASK
      hasIntMsg := 0
      qSending := none
      nextSending := none }

/-- `init_proc` (process.c:386-523) on the zeroed table. -/
def initProc (img : Image) : ProcTable := fun i => initSlot img i Process.zero

theorem ldtSegLinear_nativeLdt :
    ∀ i : Pid, i.val < NR_TASKS + NR_NATIVE_PROCS → ldtSegLinear (nativeLdt i).2 = 0 := by
  decide

/-! ## Quiescent tables -/

/-- A slot that takes part in no IPC: nobody waits on it and it waits on
    nobody. The other fields of a free slot do not matter. -/
structure Process.Idle (p : Process) : Prop where
  flags : p.pFlags = 0 ∨ p.pFlags = FREE_SLOT
  msg : p.pFlags = 0 → p.msg = 0
  recvfrom : p.pFlags = 0 → p.pRecvfrom = NO_TASK
  sendto : p.pFlags = 0 → p.pSendto = NO_TASK
  hasIntMsg : p.hasIntMsg = 0
  queue : p.qSending = none
  next : p.nextSending = none

/-- The data segments of the tasks and the native processes have base 0, which
    `va2la` asserts. -/
def NativeFlat (t : ProcTable) : Prop :=
  ∀ p : Pid, proc2pid p < NR_TASKS + NR_NATIVE_PROCS → ldtSegLinear (t p).ldtData = 0

/-- A table between two rounds of IPC, such as the one the kernel starts with:
    any number of processes, with any descriptors, none of them blocked. -/
structure Quiescent (t : ProcTable) : Prop where
  idle : ∀ p, (t p).Idle
  flat : NativeFlat t

theorem initProc_quiescent (img : Image) : Quiescent (initProc img) := by
  refine ⟨fun p => ?_, fun p hp => ?_⟩
  · unfold initProc initSlot
    by_cases h : p.val ≥ NR_TASKS + NR_NATIVE_PROCS
    · rw [if_pos h]
      exact ⟨.inr rfl, by simp, by simp, by simp, rfl, rfl, rfl⟩
    · rw [if_neg h]
      exact ⟨.inl rfl, fun _ => rfl, fun _ => rfl, fun _ => rfl, rfl, rfl, rfl⟩
  · have hp' : p.val < NR_TASKS + NR_NATIVE_PROCS := by
      unfold proc2pid at hp
      exact_mod_cast hp
    unfold initProc initSlot
    rw [if_neg (by omega)]
    exact ldtSegLinear_nativeLdt p hp'

end SimpleOs
