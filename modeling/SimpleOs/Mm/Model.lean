import SimpleOs.Kernel.Outcome

/-!
# The memory manager

Model of `alloc_mem`, `free_mem`, `do_fork`, `cleanup`, `do_exit`, `do_wait`,
`do_execl` (mm/mm.c:33-62, 124-324) and of the loop of `task_mm`
(systask.c:40-89).

The task runs at task level and is preempted like any process, so it is a
machine of its own: `MmPc` lists the points at which it enters the kernel or
returns from it, and `mmStep` runs it from one such point to the next. The
functions that send from their middle (`do_fork`, `cleanup`, `do_exit`,
`do_wait`) are cut there, and what the C stack remembers across the send is in
the point itself. The straight-line code between two system calls is one step.

What `do_execl` gets from romfs is a parameter (`MmImage.loadEcho`): it reads
the file into a block of `alloc_mem` and cannot reach the process table.
-/

namespace SimpleOs

open ByteMem

/-! ## The image -/

/-- The parts of the image that belong to the memory manager: the addresses of
    `mm_msg` and of the messages on its stack, and the lines of `do_execl` that
    read the file `echo` from romfs (mm/mm.c:301-304). -/
structure MmImage where
  mmMsg : Addr
  forkMsg : Addr
  cleanupMsg : Addr
  waitMsg : Addr
  /-- From `(memory, memory_used)`, the same afterwards, and `buf`. -/
  loadEcho : Mem → BitVec 32 → Except Fault (Mem × BitVec 32 × Addr)

/-- The members of `mm_msg` that the manager reads. -/
def mmSource (img : MmImage) (k : Machine) : ℤ := (readWord k.mem (img.mmMsg + offSource)).toInt
def mmType (img : MmImage) (k : Machine) : BitVec 32 := readWord k.mem (img.mmMsg + offType)
def mmStatus (img : MmImage) (k : Machine) : BitVec 32 := readWord k.mem (img.mmMsg + offM3i1)
def mmNameLen (img : MmImage) (k : Machine) : ℤ := (readWord k.mem (img.mmMsg + offM3i2)).toInt

/-! ## The block allocator -/

/-- `find_free_area` (mm/mm.c:33-44): the number of the first clear bit of
    `memory_used`, or `-1`, and the bitmap with that bit set. -/
def findFreeArea (memoryUsed : BitVec 32) : Option (Fin 32) × BitVec 32 :=
  match (List.finRange 32).find? (fun i => ((memoryUsed >>> i.val) &&& 1) == 0) with
  | some i => (some i, memoryUsed ||| (1 <<< i.val))
  | none => (none, memoryUsed)

/-- `alloc_mem` (mm/mm.c:47-54): the address of a block of 512 KB, or 0. -/
def allocMem (k : Machine) : Addr × Machine :=
  match findFreeArea k.memoryUsed with
  | (none, used) => (0, { k with memoryUsed := used })
  | (some i, used) =>
    (k.mmStart + BitVec.ofNat 32 (i.val * 512 * 1024), { k with memoryUsed := used })

/-- `free_mem` (mm/mm.c:56-62). The shift count is the low five bits of the
    block number, as the processor takes it. -/
def freeMem (k : Machine) (memAddr : Addr) : Machine :=
  if memAddr = 0 then k
  else
    let i := ((memAddr - k.mmStart).toNat / (512 * 1024)) % 32
    { k with memoryUsed := k.memoryUsed &&& ~~~((1 : BitVec 32) <<< i) }

/-! ## `do_fork` -/

/-- The limit of a segment, as `do_fork` reassembles it (mm/mm.c:154, 159). -/
def segLimit (d : Descriptor) : BitVec 32 :=
  ((d.limitHighAttr2 &&& 0xf).setWidth 32 <<< 16) + d.limitLow.setWidth 32

/-- The base of a segment, as `do_fork` reassembles it (mm/mm.c:153, 158). -/
def segBase (d : Descriptor) : BitVec 32 :=
  (d.baseHigh.setWidth 32 <<< 24) + (d.baseMid.setWidth 32 <<< 16) + d.baseLow.setWidth 32

/-- The size `do_fork` computes from a limit and the granularity bit of a
    descriptor (mm/mm.c:155, 160). -/
def segSize (limit : BitVec 32) (d : Descriptor) : BitVec 32 :=
  (limit + 1) * (if d.limitHighAttr2 &&& 0x80 ≠ 0 then 4096 else 1)

/-- The base every child gets (mm/mm.c:165): the block of `alloc_mem` is not
    used. -/
abbrev childBase : Addr := 0xa00000

/-- `PRIVILEGE_USER << 5`. -/
abbrev userDpl : BitVec 16 := 0x60

/-- The slot of the child (mm/mm.c:143-147, 175-178): a copy of the parent's,
    with its own selector, parent, name and segments. There is no room for the name
    beyond `TASK_NAME_LEN` bytes: see `ForkNameFits`. -/
def forkSlot (t : ProcTable) (pid child : Pid) : Process :=
  { t pid with
    ldtSel := (t child).ldtSel
    pParent := proc2pid pid
    name := (t pid).name ++ "_" ++ toString child.val
    ldtCode := initDescriptor childBase (0x400 - 1) (DA_LIMIT_4K ||| DA_32 ||| DA_C ||| userDpl)
    ldtData := initDescriptor childBase (0x400 - 1) (DA_LIMIT_4K ||| DA_32 ||| DA_DRW ||| userDpl) }

/-- include/process.h:28. -/
abbrev TASK_NAME_LEN : ℕ := 32

/-- The name of the child has room in its slot, with the NUL. `s32_sprintf` does not
    look, and `name` is the last member of a slot (include/process.h:123), so what has
    no room goes into the slot behind the child's: into the saved registers, from the
    character 105 on into `ldt_sel`, from 133 on into `p_flags`. The model has no bytes
    there, so `forkSlot` is what the code does as long as the names fit. -/
def ForkNameFits (t : ProcTable) (pid child : Pid) : Prop :=
  (forkSlot t pid child).name.toList.length < TASK_NAME_LEN

instance (t : ProcTable) (pid child : Pid) : Decidable (ForkNameFits t pid child) :=
  inferInstanceAs (Decidable (_ < _))

/-- The first free slot (mm/mm.c:129-133). -/
def findFreeSlot (t : ProcTable) : Option Pid :=
  (List.finRange 35).find? fun p => (t p).pFlags == FREE_SLOT

/-- `do_fork` (mm/mm.c:124-193) up to the message to the child; `none` when
    there is no free slot, which it reports as `-1`. The two assertions that
    repeat what the loop has computed (`p == &proc_table[child_pid]`,
    `i < NR_TASKS + NR_PROCS`) are left out. -/
def doFork (img : MmImage) (k : Machine) : Except Fault (Machine × Option Pid) :=
  match findFreeSlot k.procTable with
  | none => .ok (k, none)
  | some child => do
    assert "child_pid >= NR_TASKS + NR_NATIVE_PROCS" (child.val ≥ NR_TASKS + NR_NATIVE_PROCS)
    let pid ← slot (mmSource img k)
    let k := { k with
      procTable := Function.update k.procTable child (forkSlot k.procTable pid child) }
    let code := (k.procTable pid).ldtCode
    let data := (k.procTable pid).ldtData
    assert "(caller_T_base == caller_D_S_base) && (caller_T_limit == caller_D_S_limit) && (caller_T_size == caller_D_S_size)"
      (segBase code = segBase data ∧ segLimit code = segLimit data ∧
        segSize (segLimit code) code = segSize (segLimit code) data)
    let (_, k) := allocMem k
    let k := { k with
      mem := pAsmMemcpy k.mem (childBase + 0x100000) (segBase code + 0x100000) 0x100000 }
    .ok ({ k with mem := writeWord k.mem (img.mmMsg + offM3i2) (BitVec.ofInt 32 (proc2pid child)) },
      some child)

/-! ## `do_execl` -/

/-- A 16-bit field of an ELF header. -/
def readHalf (mem : Mem) (a : Addr) : BitVec 16 := mem (a + 1) ++ mem a

/-- The loop of `do_execl` over the program headers (mm/mm.c:310-317), at the
    header number `i`: every PT_LOAD segment is copied from the file in `buf` to
    the caller's memory. `e_phnum` is read again in every round; it has 16 bits,
    so `i` stays below 65536. -/
def loadSegments (src : ℤ) (buf : Addr) : ℕ → ℕ → Addr → Machine → Except Fault Machine
  | 0, _, _, _ => .error .spin
  | fuel + 1, i, header, k =>
    if i < (readHalf k.mem (buf + 44)).toNat then
      if readWord k.mem header = 1 then do
        let dest ← va2la k src (readWord k.mem (header + 8))
        let file ← va2la k (proc2pid TASK_MM) (buf + readWord k.mem (header + 4))
        let k := { k with mem := pAsmMemcpy k.mem dest file (readWord k.mem (header + 16)).toNat }
        loadSegments src buf fuel (i + 1) (header + 32) k
      else loadSegments src buf fuel (i + 1) (header + 32) k
    else .ok k

/-- `do_execl` (mm/mm.c:288-324). -/
def doExecl (img : MmImage) (k : Machine) : Except Fault Machine := do
  let nameLen := mmNameLen img k
  let src := mmSource img k
  assert "name_len < MAX_PATH" (nameLen < 256)
  let (mem, used, buf) ← img.loadEcho k.mem k.memoryUsed
  let k := { k with mem := mem, memoryUsed := used }
  let entry := readWord k.mem (buf + 24)
  let k ← loadSegments src buf 65536 0 (buf + readWord k.mem (buf + 28)) k
  let k := freeMem k buf
  let p ← slot src
  .ok (k.modify p fun p => { p with regs := { p.regs with eip := entry } })

/-! ## `task_mm` -/

/-- Where `cleanup` returns to. -/
inductive Resume where
  /-- `do_exit`, before its loop. -/
  | exit (pid : ℤ)
  /-- The loop of `do_exit`, at the slot `i`. -/
  | scan (pid : ℤ) (i : Pid)
  /-- `do_wait`, which returns. -/
  | wait
  deriving DecidableEq

/-- The points at which `task_mm` continues. -/
inductive MmPc where
  /-- `send_recv(RECEIVE, ANY, &mm_msg)`. -/
  | receive
  /-- Behind it: a message has been received. -/
  | dispatch
  /-- The message to the child in `do_fork`. -/
  | forkSend (src : ℤ) (child : Pid)
  /-- The message to the parent in `cleanup`. -/
  | cleanupSend (proc : Pid) (ret : Resume)
  /-- Behind it. -/
  | cleanupFree (proc : Pid) (ret : Resume)
  /-- The loop of `do_exit` from the slot number `i` on. -/
  | exitScan (pid : ℤ) (i : ℕ)
  /-- The message of `do_wait` to a process without children. -/
  | waitNone (pid : ℤ)
  /-- The reply at the end of the loop. -/
  | reply (src : ℤ) (retval : BitVec 32)
  deriving DecidableEq

abbrev INIT : Pid := 3

/-- The first slot from `i` on that the loop of `do_exit` cleans up
    (mm/mm.c:236-249). The statement `proc_table[i].p_parent == INIT;` in it
    compares and changes nothing. -/
def exitScanFind (t : ProcTable) (pid : ℤ) (i : ℕ) : Option Pid :=
  (List.finRange 35).find? fun j =>
    i ≤ j.val ∧ (t j).pParent = pid ∧ (t INIT).pFlags &&& WAITING ≠ 0 ∧
      (t j).pFlags &&& HANGING ≠ 0

/-- `do_exit(status)` (mm/mm.c:208-234) up to `cleanup` or its loop. -/
def doExit (img : MmImage) (k : Machine) : Except Fault (Machine × MmPc) := do
  let status := mmStatus img k
  let pid := mmSource img k
  let p ← slot pid
  let parentPid := (k.procTable p).pParent
  let k := k.modify p fun p => { p with exitStatus := status }
  let parent ← slot parentPid
  if (k.procTable parent).pFlags &&& WAITING ≠ 0 then
    .ok (k.modify parent fun p => { p with pFlags := p.pFlags &&& ~~~WAITING },
      .cleanupSend p (.exit pid))
  else
    .ok (k.modify parent fun p => { p with pFlags := p.pFlags ||| HANGING }, .exitScan pid 0)

/-- The first child of `pid` that is hanging (mm/mm.c:259-270). -/
def hangingChild (t : ProcTable) (pid : ℤ) : Option Pid :=
  (List.finRange 35).find? fun j => (t j).pParent = pid ∧ (t j).pFlags &&& HANGING ≠ 0

/-- `do_wait` (mm/mm.c:252-285) up to `cleanup` or its message. -/
def doWait (img : MmImage) (k : Machine) : Except Fault (Machine × MmPc) := do
  let pid := mmSource img k
  match hangingChild k.procTable pid with
  | some child => .ok (k, .cleanupSend child .wait)
  | none =>
    if ∃ j, (k.procTable j).pParent = pid then do
      let p ← slot pid
      .ok (k.modify p fun p => { p with pFlags := p.pFlags ||| WAITING }, .receive)
    else .ok (k, .waitNone pid)

/-- The `switch` of `task_mm` (systask.c:45-77) on the message received. The
    value of `do_execl()` is whatever `eax` holds when it returns. -/
def mmDispatch (img : MmImage) (eax : BitVec 32) (k : Machine) : Except Fault (Machine × MmPc) :=
  let src := mmSource img k
  let type := mmType img k
  if type = FORK then do
    match ← doFork img k with
    | (k, some child) => .ok (k, .forkSend src child)
    | (k, none) => .ok (k, .reply src (-1))
  else if type = EXIT then doExit img k
  else if type = WAIT then doWait img k
  else if type = EXEC then do
    let k ← doExecl img k
    .ok (k, .reply src eax)
  else .error (.panic "unknown message type")

/-- `send_recv(SEND, dest, msg)` by `task_mm`. -/
def mmSend (k : Machine) (dest : ℤ) (msg : Addr) : Except Fault Machine :=
  sysSendrec k SEND dest msg TASK_MM

/-- `cleanup` (mm/mm.c:195-201) up to the end of its send. -/
def cleanupSend (img : MmImage) (k : Machine) (proc : Pid) : Except Fault Machine :=
  let mem := writeWord k.mem (img.cleanupMsg + offType) SYSCALL_RET
  let mem := writeWord mem (img.cleanupMsg + offM3i2) (BitVec.ofInt 32 (proc2pid proc))
  let mem := writeWord mem (img.cleanupMsg + offM3i1) (k.procTable proc).exitStatus
  mmSend { k with mem := mem } (k.procTable proc).pParent img.cleanupMsg

/-- One step of `task_mm`, from one of its points to the next. -/
def mmStep (img : MmImage) (eax : BitVec 32) (k : Machine) : MmPc → Except Fault (Machine × MmPc)
  | .receive => do
    let k ← sysSendrec { k with mem := pAsmMemset k.mem img.mmMsg 0 sizeofMessage }
      RECEIVE ANY img.mmMsg TASK_MM
    .ok (k, .dispatch)
  | .dispatch => mmDispatch img eax k
  | .forkSend src child => do
    let mem := writeWord k.mem (img.forkMsg + offType) SYSCALL_RET
    let mem := writeWord mem (img.forkMsg + offM3i1) 0
    let mem := writeWord mem (img.forkMsg + offM3i2) 0
    let k ← mmSend { k with mem := mem } (proc2pid child) img.forkMsg
    .ok (k, .reply src 0)
  | .cleanupSend proc ret => do
    let k ← cleanupSend img k proc
    .ok (k, .cleanupFree proc ret)
  | .cleanupFree proc ret =>
    let k := k.modify proc fun p => { p with pFlags := FREE_SLOT }
    match ret with
    | .exit pid => .ok (k, .exitScan pid 0)
    | .scan pid i => .ok (k, .exitScan pid (i.val + 1))
    | .wait => .ok (k, .receive)
  | .exitScan pid i =>
    match exitScanFind k.procTable pid i with
    | some j =>
      .ok (k.modify INIT fun p => { p with pFlags := p.pFlags &&& ~~~WAITING },
        .cleanupSend j (.scan pid j))
    | none => .ok (k, .receive)
  | .waitNone pid => do
    let mem := writeWord k.mem (img.waitMsg + offType) SYSCALL_RET
    let mem := writeWord mem (img.waitMsg + offM3i2) (BitVec.ofInt 32 NO_TASK)
    let k ← mmSend { k with mem := mem } pid img.waitMsg
    .ok (k, .receive)
  | .reply src retval => do
    let mem := writeWord k.mem (img.mmMsg + offM3i1) retval
    let mem := writeWord mem (img.mmMsg + offType) SYSCALL_RET
    let k ← mmSend { k with mem := mem } src img.mmMsg
    .ok (k, .receive)

/-- The condition on a step of `task_mm`: a FORK gives the child a name that has room. -/
def NamesFit (img : MmImage) (pc : MmPc) (k : Machine) : Prop :=
  pc = .dispatch → mmType img k = FORK → ∀ pid child, mmSource img k = proc2pid pid →
    findFreeSlot k.procTable = some child → ForkNameFits k.procTable pid child

/-- What is left to compute when there is a FORK. -/
def forkFits (t : ProcTable) (source : ℤ) : Bool :=
  match slot source, findFreeSlot t with
  | .ok pid, some child => decide (ForkNameFits t pid child)
  | _, _ => true

theorem namesFit_iff (img : MmImage) (pc : MmPc) (k : Machine) :
    (pc = .dispatch → mmType img k = FORK → forkFits k.procTable (mmSource img k) = true) ↔
      NamesFit img pc k := by
  refine ⟨fun h hpc htype pid child hpid hfree => ?_, fun h hpc htype => ?_⟩
  · have hfits := h hpc htype
    unfold forkFits at hfits
    rw [slot_eq_ok.mpr hpid, hfree] at hfits
    exact of_decide_eq_true hfits
  · unfold forkFits
    split
    · rename_i pid child hpid hfree
      exact decide_eq_true (h hpc htype pid child (slot_eq_ok.mp hpid) hfree)
    · rfl

instance (img : MmImage) (pc : MmPc) (k : Machine) : Decidable (NamesFit img pc k) :=
  decidable_of_iff _ (namesFit_iff img pc k)

end SimpleOs
