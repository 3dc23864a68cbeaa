import SimpleOs.Lib.ByteMem

/-!
# The process table

The data model shared by the kernel, the system tasks and the memory manager
(include/process.h, include/protect.h), and the table `init_proc` builds
(process.c:386-523).

* `proc_table` has `NR_TASKS + NR_PROCS = 35` slots; a pointer to a slot is a
  `Pid := Fin 35`, and a possibly null one an `Option Pid`.
* A C `int` that only ever holds small numbers (process numbers, indices) is an
  `ℤ`; words that are stored in messages or combined bit by bit are `BitVec 32`.
* Memory is the flat 32-bit byte memory of `ByteMem`. The process table is not
  part of it: message buffers are the processes' own memory.
* `Fault` lists the ways in which a C function fails to return: a failed
  `assert`, a `panic`, an access outside `proc_table`, a loop that never ends,
  output that overwrites the kernel.
-/

namespace SimpleOs

open ByteMem

/-! ## Constants (include/process.h) -/

abbrev NR_TASKS : ℕ := 3
abbrev NR_PROCS : ℕ := 32
abbrev NR_NATIVE_PROCS : ℕ := 4

/-- A slot of `proc_table[NR_TASKS + NR_PROCS]`. -/
abbrev Pid := Fin 35

instance neZero_slots : @NeZero ℕ Zero.ofOfNat0 35 := ⟨by decide⟩

abbrev TASK_TTY : Pid := 0
abbrev TASK_SYS : Pid := 1
abbrev TASK_MM : Pid := 2

/-- `ANY = NR_TASKS + NR_PROCS + 10`. -/
abbrev ANY : ℤ := 45
/-- `NO_TASK = NR_TASKS + NR_PROCS + 20`. -/
abbrev NO_TASK : ℤ := 55
abbrev INTERRUPT : ℤ := -10

/-- The two functions of the `sendrec` system call; `BOTH` is split by
    `send_recv` before the kernel sees it. -/
abbrev SEND : ℤ := 1
abbrev RECEIVE : ℤ := 2

abbrev SENDING : BitVec 32 := 0x02
abbrev RECEIVING : BitVec 32 := 0x04
abbrev WAITING : BitVec 32 := 0x08
abbrev HANGING : BitVec 32 := 0x10
abbrev FREE_SLOT : BitVec 32 := 0x20

abbrev HARD_INT : BitVec 32 := 1
abbrev GET_TICKS : BitVec 32 := 2
abbrev FORK : BitVec 32 := 3
abbrev SYSCALL_RET : BitVec 32 := 4
abbrev EXIT : BitVec 32 := 5
abbrev WAIT : BitVec 32 := 6
abbrev EXEC : BitVec 32 := 7

abbrev TASK_STACK : BitVec 32 := 0x8000

/-! ## Segment descriptors (include/protect.h) -/

/-- `Descriptor` (include/protect.h:13-21). -/
structure Descriptor where
  limitLow : BitVec 16
  baseLow : BitVec 16
  baseMid : BitVec 8
  attr1 : BitVec 8
  limitHighAttr2 : BitVec 8
  baseHigh : BitVec 8
  deriving DecidableEq

/-- `init_descriptor` (include/protect.h:70-78). The limit is shifted left by
    16, not right, before it is masked with `0x0f`. -/
def initDescriptor (base limit : BitVec 32) (attr : BitVec 16) : Descriptor where
  limitLow := (limit &&& 0xffff).setWidth 16
  baseLow := (base &&& 0xffff).setWidth 16
  baseMid := ((base >>> 16) &&& 0xff).setWidth 8
  attr1 := (attr &&& 0xff).setWidth 8
  limitHighAttr2 := ((limit <<< 16) &&& 0x0f).setWidth 8 ||| ((attr >>> 8) &&& 0xf0).setWidth 8
  baseHigh := ((base >>> 24) &&& 0xff).setWidth 8

abbrev DA_C : BitVec 16 := 0x98
abbrev DA_DRW : BitVec 16 := 0x92
abbrev DA_32 : BitVec 16 := 0x4000
abbrev DA_LIMIT_4K : BitVec 16 := 0x8000

/-- `gdt[SELECTOR_KERNEL_CS >> 3]`: `LABEL_DESC_FLAT_C`
    (kernel_loader/kloader_init.S:19), base 0, limit `0xfffff`. -/
def gdtKernelCs : Descriptor := ⟨0xffff, 0, 0, 0x9a, 0xcf, 0⟩

/-- `gdt[SELECTOR_KERNEL_DS >> 3]`: `LABEL_DESC_FLAT_RW`
    (kernel_loader/kloader_init.S:20), base 0, limit `0xfffff`. -/
def gdtKernelDs : Descriptor := ⟨0xffff, 0, 0, 0x92, 0xcf, 0⟩

/-! ## Messages -/

/-- `sizeof(Message)`: `source`, `type` and the 40 bytes of the union. -/
abbrev sizeofMessage : ℕ := 48

/-- `Message` (include/process.h:81-91). The largest member `m3` of the union
    covers all of its 40 bytes. -/
structure Message where
  source : BitVec 32
  type : BitVec 32
  m3i1 : BitVec 32
  m3i2 : BitVec 32
  m3i3 : BitVec 32
  m3i4 : BitVec 32
  m3l1 : BitVec 64
  m3l2 : BitVec 64
  m3p1 : BitVec 32
  m3p2 : BitVec 32
  deriving DecidableEq

/-- `RETVAL` and `STATUS` are `u.m3.m3i1`, `PID` and `NAME_LEN` are
    `u.m3.m3i2` (include/process.h:93-99). -/
def Message.retval (m : Message) : BitVec 32 := m.m3i1
def Message.status (m : Message) : BitVec 32 := m.m3i1
def Message.pid (m : Message) : BitVec 32 := m.m3i2
def Message.nameLen (m : Message) : BitVec 32 := m.m3i2

/-- The offsets of the members of `Message` that the code accesses. -/
abbrev offSource : Addr := 0
abbrev offType : Addr := 4
abbrev offM3i1 : Addr := 8
abbrev offM3i2 : Addr := 12

/-- The message stored at the linear address `la`. -/
def readMessage (mem : Mem) (la : Addr) : Message where
  source := readWord mem la
  type := readWord mem (la + 4)
  m3i1 := readWord mem (la + 8)
  m3i2 := readWord mem (la + 12)
  m3i3 := readWord mem (la + 16)
  m3i4 := readWord mem (la + 20)
  m3l1 := readWord mem (la + 28) ++ readWord mem (la + 24)
  m3l2 := readWord mem (la + 36) ++ readWord mem (la + 32)
  m3p1 := readWord mem (la + 40)
  m3p2 := readWord mem (la + 44)

/-! ## Processes -/

/-- `StackFrame` (include/process.h:31-51). -/
structure StackFrame where
  gs : BitVec 32
  fs : BitVec 32
  es : BitVec 32
  ds : BitVec 32
  edi : BitVec 32
  esi : BitVec 32
  ebp : BitVec 32
  kernelEsp : BitVec 32
  ebx : BitVec 32
  edx : BitVec 32
  ecx : BitVec 32
  eax : BitVec 32
  retaddr : BitVec 32
  eip : BitVec 32
  cs : BitVec 32
  eflags : BitVec 32
  esp : BitVec 32
  ss : BitVec 32

/-- `Process` (include/process.h:103-125). `ldt[LDT_CODE]` and `ldt[LDT_DATA]`
    are `ldtCode` and `ldtData`. -/
structure Process where
  regs : StackFrame
  ldtSel : BitVec 16
  ldtCode : Descriptor
  ldtData : Descriptor
  pid : BitVec 32
  ttyIndex : ℤ
  pFlags : BitVec 32
  msg : Addr
  pRecvfrom : ℤ
  pSendto : ℤ
  hasIntMsg : ℤ
  pParent : ℤ
  qSending : Option Pid
  nextSending : Option Pid
  exitStatus : BitVec 32
  name : String

abbrev ProcTable := Pid → Process

/-- Everything the modelled code reads and writes. -/
structure Machine where
  procTable : ProcTable
  readyProcess : Pid
  kReenter : ℤ
  mem : Mem
  /-- `memory_used` and `mm_start` (mm/mm.c:11-17). -/
  memoryUsed : BitVec 32
  mmStart : BitVec 32
  /-- `ticks` (clock.c:13). -/
  ticks : BitVec 32

/-- Apply `f` to the slot `p` of the table. -/
def Machine.modify (k : Machine) (p : Pid) (f : Process → Process) : Machine :=
  { k with procTable := Function.update k.procTable p (f (k.procTable p)) }

@[simp] theorem Machine.modify_procTable (k : Machine) (p : Pid) (f : Process → Process) :
    (k.modify p f).procTable = Function.update k.procTable p (f (k.procTable p)) := rfl
@[simp] theorem Machine.modify_mem (k : Machine) (p : Pid) (f : Process → Process) :
    (k.modify p f).mem = k.mem := rfl
@[simp] theorem Machine.modify_readyProcess (k : Machine) (p : Pid) (f : Process → Process) :
    (k.modify p f).readyProcess = k.readyProcess := rfl
@[simp] theorem Machine.modify_kReenter (k : Machine) (p : Pid) (f : Process → Process) :
    (k.modify p f).kReenter = k.kReenter := rfl

/-! ## Failures -/

/-- The ways in which a call does not return. -/
inductive Fault where
  /-- `assertion_failure` (k_assert.c:3-9): prints the expression and spins. -/
  | assertion (exp : String)
  /-- `panic` (k_assert.c:12-23). -/
  | panic (msg : String)
  /-- An element of `proc_table` outside `0 .. NR_TASKS + NR_PROCS - 1`. -/
  | badIndex (i : ℤ)
  /-- A loop that never ends. -/
  | spin
  /-- Output to the screen that runs on into the kernel's text. -/
  | overrun
  deriving DecidableEq

/-- The address of the kernel's text (k.ld:5). -/
abbrev kernelText : ℕ := 0x100000

/-- `assert(exp)` (include/k_assert.h:8-9). -/
def assert (exp : String) (c : Prop) [Decidable c] : Except Fault Unit :=
  if c then .ok () else .error (.assertion exp)

/-- The slot `proc_table[i]`. -/
def slot (i : ℤ) : Except Fault Pid :=
  if h : 0 ≤ i ∧ i < 35 then .ok ⟨i.toNat, by omega⟩ else .error (.badIndex i)

/-- `proc2pid(p) = p - proc_table`. -/
def proc2pid (p : Pid) : ℤ := (p.val : ℤ)

@[simp] theorem proc2pid_inj {p q : Pid} : proc2pid p = proc2pid q ↔ p = q := by
  unfold proc2pid
  rw [Fin.ext_iff]
  omega

theorem proc2pid_nonneg (p : Pid) : 0 ≤ proc2pid p := Int.natCast_nonneg _

theorem proc2pid_lt (p : Pid) : proc2pid p < 35 := by
  have := p.isLt
  unfold proc2pid
  omega

@[simp] theorem proc2pid_ne_any (p : Pid) : proc2pid p ≠ ANY := by
  have := proc2pid_lt p
  unfold ANY
  omega

@[simp] theorem proc2pid_ne_noTask (p : Pid) : proc2pid p ≠ NO_TASK := by
  have := proc2pid_lt p
  unfold NO_TASK
  omega

@[simp] theorem proc2pid_ne_interrupt (p : Pid) : proc2pid p ≠ INTERRUPT := by
  have := proc2pid_nonneg p
  unfold INTERRUPT
  omega

@[simp] theorem slot_proc2pid (p : Pid) : slot (proc2pid p) = .ok p := by
  unfold slot
  rw [dif_pos ⟨proc2pid_nonneg p, proc2pid_lt p⟩]
  congr 1

theorem slot_eq_ok {i : ℤ} {p : Pid} : slot i = .ok p ↔ i = proc2pid p := by
  constructor
  · intro h
    unfold slot at h
    split_ifs at h with hi
    · cases h
      simp only [proc2pid]
      omega
  · rintro rfl
    exact slot_proc2pid p

/-! ### Peeling a computation apart -/

@[simp] theorem assert_eq_ok {exp : String} {c : Prop} [Decidable c] {u : Unit} :
    assert exp c = .ok u ↔ c := by
  unfold assert
  split_ifs with h <;> simp [h]

theorem bind_eq_ok {α β : Type} {x : Except Fault α} {f : α → Except Fault β} {b : β} :
    (x >>= f) = .ok b ↔ ∃ a, x = .ok a ∧ f a = .ok b := by
  cases x with
  | error e => simp [bind, Except.bind]
  | ok a => simp [bind, Except.bind]

theorem bind_eq_error {α β : Type} {x : Except Fault α} {f : α → Except Fault β} {e : Fault} :
    (x >>= f) = .error e ↔ x = .error e ∨ ∃ a, x = .ok a ∧ f a = .error e := by
  cases x with
  | error e' => simp [bind, Except.bind]
  | ok a => simp [bind, Except.bind]

@[simp] theorem assert_bind_eq_ok {β : Type} {exp : String} {c : Prop} [Decidable c]
    {f : Unit → Except Fault β} {b : β} :
    (assert exp c >>= f) = .ok b ↔ c ∧ f () = .ok b := by
  rw [bind_eq_ok]
  exact ⟨fun ⟨_, h, hf⟩ => ⟨assert_eq_ok.mp h, hf⟩, fun ⟨h, hf⟩ => ⟨(), assert_eq_ok.mpr h, hf⟩⟩

/-- A check that holds is skipped. -/
theorem assert_bind {β : Type} {exp : String} {c : Prop} [Decidable c] (h : c)
    (f : Unit → Except Fault β) : (assert exp c >>= f) = f () := by
  simp [assert, h, bind, Except.bind]

end SimpleOs
