import SimpleOs.Kernel.Delivery

/-!
# The system task

Model of the loop of `task_sys` (systask.c:9-36) and of the processes that ask
it for the time with `send_recv(BOTH, TASK_SYS, &msg)` (syscall.c:22-29,
process.c:793-824).

`BOTH` is two system calls, and every party can be preempted between any two of
its own, so the system is one in which at each step one ready party makes its
next call. Before the call the rest of the machine may have moved: the clock has
ticked, the scheduler has chosen, and the processes have written any memory that
is not a message in use.

As in `Traced`, an observer writes down what has happened: the requests passed
to sends, the requests `task_sys` has taken, the value of `ticks` it has read
for each, and the replies that have arrived.
-/

namespace SimpleOs

open ByteMem

/-! ## `task_sys` -/

/-- Where `task_sys` continues: at its receive, or behind it. -/
inductive SysPc where
  | receive
  | serve
  deriving DecidableEq

/-- One round of `task_sys` (systask.c:14-34) is two steps. `send_recv` clears
    the message before a receive. -/
def taskSysStep (sysMsg : Addr) (k : Machine) : SysPc → Except Fault (Machine × SysPc)
  | .receive => do
    let k ← sysSendrec { k with mem := pAsmMemset k.mem sysMsg 0 sizeofMessage }
      RECEIVE ANY sysMsg TASK_SYS
    .ok (k, .serve)
  | .serve =>
    let src := (readWord k.mem (sysMsg + offSource)).toInt
    if readWord k.mem (sysMsg + offType) = GET_TICKS then do
      let k ← sysSendrec { k with mem := writeWord k.mem (sysMsg + offM3i1) k.ticks }
        SEND src sysMsg TASK_SYS
      .ok (k, .receive)
    else .error (.panic "unknown message type")

theorem taskSysStep_receive {sysMsg : Addr} {k k' : Machine} {pc' : SysPc}
    (h : taskSysStep sysMsg k .receive = .ok (k', pc')) :
    pc' = .serve ∧ sysSendrec { k with mem := pAsmMemset k.mem sysMsg 0 sizeofMessage }
      RECEIVE ANY sysMsg TASK_SYS = .ok k' := by
  rw [taskSysStep, bind_eq_ok] at h
  obtain ⟨k₁, hcall, heq⟩ := h
  cases heq
  exact ⟨rfl, hcall⟩

theorem taskSysStep_serve {sysMsg : Addr} {k k' : Machine} {pc' : SysPc}
    (h : taskSysStep sysMsg k .serve = .ok (k', pc')) :
    pc' = .receive ∧ readWord k.mem (sysMsg + offType) = GET_TICKS ∧
      sysSendrec { k with mem := writeWord k.mem (sysMsg + offM3i1) k.ticks } SEND
        (readWord k.mem (sysMsg + offSource)).toInt sysMsg TASK_SYS = .ok k' := by
  rw [taskSysStep] at h
  split_ifs at h with htype
  rw [bind_eq_ok] at h
  obtain ⟨k₁, hcall, heq⟩ := h
  cases heq
  exact ⟨rfl, htype, hcall⟩

/-! ## The clients -/

/-- The message that `get_ticks` composes at the linear address `la`
    (syscall.c:24-26). -/
def getTicksMsg (mem : Mem) (la : Addr) : Mem :=
  writeWord (pAsmMemset mem la 0 sizeofMessage) (la + offType) GET_TICKS

/-- The two calls of `send_recv(BOTH, TASK_SYS, m)` (process.c:800-806). -/
def askSys (k : Machine) (c : Pid) (m : Addr) : Except Fault Machine :=
  sysSendrec k SEND (proc2pid TASK_SYS) m c

def awaitSys (k : Machine) (c : Pid) (m : Addr) : Except Fault Machine :=
  sysSendrec k RECEIVE (proc2pid TASK_SYS) m c

/-! ## The system -/

/-- The machine, the positions of the parties, and what has happened so far. -/
structure SysState where
  k : Machine
  pc : SysPc
  /-- The client has made its send, the receive is its next call. -/
  asked : Pid → Bool
  /-- The message of the client's last `send_recv`. -/
  buf : Pid → Addr
  requests : List Event
  taken : List Event
  /-- The values of `ticks` that `task_sys` has put into replies. -/
  answers : List (BitVec 32)
  replied : List Event

/-- The client is inside `send_recv`. -/
def SysState.InCall (s : SysState) (c : Pid) : Prop :=
  s.asked c = true ∨ (s.k.procTable c).pFlags &&& RECEIVING ≠ 0

instance (s : SysState) (c : Pid) : Decidable (s.InCall c) :=
  inferInstanceAs (Decidable (_ ∨ _))

/-- The address lies in the message of `task_sys` or of a client inside
    `send_recv`. -/
def SysState.InUse (sysMsg : Addr) (s : SysState) (a : Addr) : Prop :=
  InMessage sysMsg a ∨
    ∃ c ≠ TASK_SYS, s.InCall c ∧ InMessage (linear s.k.procTable c (s.buf c)) a

/-- What may have changed when the next call is made. -/
structure Elapsed (sysMsg : Addr) (s : SysState) (k : Machine) : Prop where
  table : k.procTable = s.k.procTable
  kReenter : k.kReenter = s.k.kReenter
  mem : ∀ a, s.InUse sysMsg a → k.mem a = s.k.mem a

/-- The process `c`, outside `send_recv`, has composed a request at `m`, in
    memory of its own. -/
structure Composed (sysMsg : Addr) (s : SysState) (k : Machine) (c : Pid) (m : Addr) : Prop where
  client : c ≠ TASK_SYS
  ready : (k.procTable c).pFlags = 0
  out : s.asked c = false
  addr : m ≠ 0
  type : readWord k.mem (linear k.procTable c m + offType) = GET_TICKS
  own : ∀ a, InMessage (linear k.procTable c m) a → ¬ s.InUse sysMsg a

/-- The client `c` has sent the request at `m`. -/
def SysState.afterAsk (s : SysState) (k k' : Machine) (c : Pid) (m : Addr) : SysState :=
  { s with
    k := k'
    asked := Function.update s.asked c true
    buf := Function.update s.buf c m
    requests := s.requests ++ [⟨c, TASK_SYS, passed k c m⟩]
    taken := s.taken ++ sendReceived k k' c TASK_SYS }

/-- The client `c` has asked for its reply. -/
def SysState.afterAwait (s : SysState) (k k' : Machine) (c : Pid) : SysState :=
  { s with
    k := k'
    asked := Function.update s.asked c false
    replied := s.replied ++ receiveReceived k k' c (s.buf c) }

/-- `task_sys` has called its receive. -/
def SysState.afterReceive (sysMsg : Addr) (s : SysState) (k k' : Machine) (pc' : SysPc) :
    SysState :=
  { s with
    k := k'
    pc := pc'
    taken := s.taken ++ receiveReceived k k' TASK_SYS sysMsg }

/-- `task_sys` has sent its reply to `c`. -/
def SysState.afterServe (s : SysState) (k k' : Machine) (pc' : SysPc) (c : Pid) : SysState :=
  { s with
    k := k'
    pc := pc'
    answers := s.answers ++ [k.ticks]
    replied := s.replied ++ sendReceived k k' TASK_SYS c }

/-- One call of one ready party. -/
inductive SysCall (sysMsg : Addr) (s : SysState) : SysState → Prop
  | ask {k k' : Machine} (c : Pid) (m : Addr) (hel : Elapsed sysMsg s k)
      (hc : Composed sysMsg s k c m) (h : askSys k c m = .ok k') :
      SysCall sysMsg s (s.afterAsk k k' c m)
  | await {k k' : Machine} (c : Pid) (hel : Elapsed sysMsg s k) (hc : c ≠ TASK_SYS)
      (hready : (k.procTable c).pFlags = 0) (hasked : s.asked c = true)
      (h : awaitSys k c (s.buf c) = .ok k') : SysCall sysMsg s (s.afterAwait k k' c)
  | receive {k k' : Machine} {pc' : SysPc} (hel : Elapsed sysMsg s k) (hpc : s.pc = .receive)
      (hready : (k.procTable TASK_SYS).pFlags = 0)
      (h : taskSysStep sysMsg k .receive = .ok (k', pc')) :
      SysCall sysMsg s (s.afterReceive sysMsg k k' pc')
  | serve {k k' : Machine} {pc' : SysPc} (c : Pid) (hel : Elapsed sysMsg s k) (hpc : s.pc = .serve)
      (hready : (k.procTable TASK_SYS).pFlags = 0)
      (hsrc : (readWord k.mem (sysMsg + offSource)).toInt = proc2pid c)
      (h : taskSysStep sysMsg k .serve = .ok (k', pc')) :
      SysCall sysMsg s (s.afterServe k k' pc' c)

/-- Nobody is blocked, `task_sys` and at least one other process are ready, and
    nothing has happened yet. -/
structure SysStart (sysMsg : Addr) (s : SysState) : Prop where
  quiescent : Quiescent s.k.procTable
  kReenter : s.k.kReenter = 0
  sysMsg : sysMsg ≠ 0
  task : (s.k.procTable TASK_SYS).pFlags = 0
  someone : ∃ c ≠ TASK_SYS, (s.k.procTable c).pFlags = 0
  pc : s.pc = .receive
  asked : s.asked = fun _ => false
  requests : s.requests = []
  taken : s.taken = []
  answers : s.answers = []
  replied : s.replied = []

/-! ## `get_ticks` is a client -/

theorem getTicksMsg_out {mem : Mem} {la a : Addr} (h : ¬ InMessage la a) :
    getTicksMsg mem la a = mem a := by
  have hword : ¬ InBlock (la + offType) 4 a := by
    unfold InMessage InBlock sizeofMessage offType at *
    bv_omega
  exact (writeWord_out hword).trans (fill_out h)

theorem getTicksMsg_elapsed {sysMsg : Addr} {s : SysState} {c : Pid} {m : Addr}
    (hown : ∀ a, InMessage (linear s.k.procTable c m) a → ¬ s.InUse sysMsg a) :
    Elapsed sysMsg s { s.k with mem := getTicksMsg s.k.mem (linear s.k.procTable c m) } :=
  ⟨rfl, rfl, fun a ha => getTicksMsg_out fun hc => hown a hc ha⟩

/-- What `get_ticks` composes in its own memory is a request. -/
theorem getTicksMsg_composed {sysMsg : Addr} {s : SysState} {c : Pid} {m : Addr}
    (hc : c ≠ TASK_SYS) (hready : (s.k.procTable c).pFlags = 0) (hout : s.asked c = false)
    (hm : m ≠ 0) (hown : ∀ a, InMessage (linear s.k.procTable c m) a → ¬ s.InUse sysMsg a) :
    Composed sysMsg s { s.k with mem := getTicksMsg s.k.mem (linear s.k.procTable c m) } c m :=
  ⟨hc, hready, hout, hm, readWord_writeWord _ _ _, hown⟩

end SimpleOs
