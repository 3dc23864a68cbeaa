import SimpleOs.Kernel.Process

/-!
# The IPC primitives

Model of `deadlock`, `unblock`, `schedule`, `block`, `va2la`, `msg_send` and
`msg_receive` (process.c:526-791) and of the system call `sys_sendrec`
(syscall.c:100-129).

Every `assert` and every table access of the source is kept, in order. A
`while` loop is a recursion on a fuel argument. The fuel is the number of slots
(one more where the loop tests before it uses a slot): a loop that makes more
rounds than that visits a slot twice, and as none of these loops changes the
table it then never ends, so running out of fuel is the fault `spin`.

The `printx` calls of `deadlock` only write to the screen and are left out.
-/

namespace SimpleOs

open ByteMem

/-! ## `deadlock` -/

/-- The `do … while (p != proc_table + src)` loop of `deadlock`
    (process.c:538-543), which prints the cycle. -/
def deadlockPrint (t : ProcTable) (src : ℤ) : ℕ → Pid → Except Fault Unit
  | 0, _ => .error .spin
  | fuel + 1, p => do
    assert "p->msg" ((t p).msg ≠ 0)
    let p ← slot (t p).pSendto
    if proc2pid p = src then .ok () else deadlockPrint t src fuel p

/-- The `while(1)` loop of `deadlock` (process.c:529-550), with `p` the process
    looked at. -/
def deadlockLoop (t : ProcTable) (src dest : ℤ) : ℕ → Pid → Except Fault Bool
  | 0, _ => .error .spin
  | fuel + 1, p =>
    if (t p).pFlags &&& SENDING ≠ 0 then
      if (t p).pSendto = src then do
        let p ← slot dest
        deadlockPrint t src 35 p
        .ok true
      else do
        let p ← slot (t p).pSendto
        deadlockLoop t src dest fuel p
    else .ok false

/-- `deadlock(src, dest)` (process.c:526-553). -/
def deadlock (t : ProcTable) (src dest : ℤ) : Except Fault Bool := do
  let p ← slot dest
  deadlockLoop t src dest 35 p

/-! ## The scheduler -/

/-- `unblock` (process.c:555-558). -/
def unblock (k : Machine) (p : Pid) : Except Fault Unit :=
  assert "p->p_flags == 0" ((k.procTable p).pFlags = 0)

/-- The `while(1)` loop of `schedule` (process.c:565-578). Stepping past the
    last slot comes back to the first, as addition in `Fin 35` does. -/
def scheduleLoop (t : ProcTable) : ℕ → Pid → Except Fault Pid
  | 0, _ => .error .spin
  | fuel + 1, ready =>
    let ready := ready + 1
    if (t ready).pFlags = FREE_SLOT then scheduleLoop t fuel ready
    else if (t ready).pFlags = 0 then .ok ready
    else scheduleLoop t fuel ready

/-- `schedule` (process.c:560-581). -/
def schedule (k : Machine) : Except Fault Machine := do
  let ready ← scheduleLoop k.procTable 35 k.readyProcess
  .ok { k with readyProcess := ready }

/-- `block` (process.c:583-587). -/
def block (k : Machine) (p : Pid) : Except Fault Machine := do
  assert "p->p_flags" ((k.procTable p).pFlags ≠ 0)
  schedule k

/-! ## Address translation -/

/-- The base that `ldt_seg_linear` reassembles from a descriptor
    (process.c:603-607). -/
def ldtSegLinear (d : Descriptor) : BitVec 32 :=
  (d.baseHigh.setWidth 32 <<< 24) ||| (d.baseMid.setWidth 32 <<< 16) ||| d.baseLow.setWidth 32

/-- The linear address of the virtual address `va` of the process in slot `p`. -/
def linear (t : ProcTable) (p : Pid) (va : Addr) : Addr := ldtSegLinear (t p).ldtData + va

/-- `va2la(pid, va)` (process.c:590-601). -/
def va2la (k : Machine) (pid : ℤ) (va : Addr) : Except Fault Addr := do
  let p ← slot pid
  let la := linear k.procTable p va
  if pid < NR_TASKS + NR_NATIVE_PROCS then
    assert "la==(u32)va" (la = va)
  .ok la

/-- `p_asm_memcpy` (p_kernel.s:131-160); `copyLoop_eq` shows that its byte loop
    computes `copy`. -/
def pAsmMemcpy (mem : Mem) (dest src : Addr) (n : ℕ) : Mem := copy mem dest src n

/-- `p_asm_memset` (p_kernel.s:162-187); `fillLoop_eq` shows that its byte loop
    computes `fill`. -/
def pAsmMemset (mem : Mem) (dest : Addr) (c : Byte) (n : ℕ) : Mem := fill mem dest c n

/-! ## `msg_send` -/

/-- `while(p->next_sending) p = p->next_sending;` (process.c:651-652). -/
def lastSending (t : ProcTable) : ℕ → Pid → Except Fault Pid
  | 0, _ => .error .spin
  | fuel + 1, p =>
    match (t p).nextSending with
    | none => .ok p
    | some p => lastSending t fuel p

/-- The branch of `msg_send` taken when the receiver is already waiting
    (process.c:622-640). -/
def msgSendDeliver (k : Machine) (sender pDest : Pid) (m : Addr) : Except Fault Machine := do
  assert "p_dest->msg" ((k.procTable pDest).msg ≠ 0)
  assert "m" (m ≠ 0)
  let la ← va2la k (proc2pid pDest) (k.procTable pDest).msg
  let ls ← va2la k (proc2pid sender) m
  let k := { k with mem := pAsmMemcpy k.mem la ls sizeofMessage }
  let k := k.modify pDest fun p => { p with msg := 0 }
  let k := k.modify pDest fun p => { p with pFlags := p.pFlags &&& ~~~RECEIVING }
  let k := k.modify pDest fun p => { p with pRecvfrom := NO_TASK }
  unblock k pDest
  assert "p_dest->p_flags == 0" ((k.procTable pDest).pFlags = 0)
  assert "p_dest->msg == 0" ((k.procTable pDest).msg = 0)
  assert "p_dest->p_recvfrom == NO_TASK" ((k.procTable pDest).pRecvfrom = NO_TASK)
  assert "p_dest->p_sendto == NO_TASK" ((k.procTable pDest).pSendto = NO_TASK)
  assert "sender->p_flags == 0" ((k.procTable sender).pFlags = 0)
  assert "sender->msg == 0" ((k.procTable sender).msg = 0)
  assert "sender->p_recvfrom == NO_TASK" ((k.procTable sender).pRecvfrom = NO_TASK)
  assert "sender->p_sendto == NO_TASK" ((k.procTable sender).pSendto = NO_TASK)
  .ok k

/-- Linking the sender behind the last element of the receiver's queue, or as
    its head (process.c:648-658). -/
def appendSending (k : Machine) (sender pDest : Pid) : Except Fault Machine :=
  match (k.procTable pDest).qSending with
  | some p => do
    let p ← lastSending k.procTable 35 p
    .ok (k.modify p fun q => { q with nextSending := some sender })
  | none => .ok (k.modify pDest fun q => { q with qSending := some sender })

/-- The branch of `msg_send` that appends the sender to the receiver's queue
    and blocks it (process.c:642-668). -/
def msgSendBlock (k : Machine) (sender pDest : Pid) (dest : ℤ) (m : Addr) :
    Except Fault Machine := do
  let k := k.modify sender fun p => { p with pFlags := p.pFlags ||| SENDING }
  assert "sender->p_flags == SENDING" ((k.procTable sender).pFlags = SENDING)
  let k := k.modify sender fun p => { p with pSendto := dest }
  let k := k.modify sender fun p => { p with msg := m }
  let k ← appendSending k sender pDest
  let k := k.modify sender fun p => { p with nextSending := none }
  let k ← block k sender
  assert "sender->p_flags == SENDING" ((k.procTable sender).pFlags = SENDING)
  assert "sender->msg != 0" ((k.procTable sender).msg ≠ 0)
  assert "sender->p_recvfrom == NO_TASK" ((k.procTable sender).pRecvfrom = NO_TASK)
  assert "sender->p_sendto == dest" ((k.procTable sender).pSendto = dest)
  .ok k

/-- `msg_send(current, dest, m)` (process.c:609-671). It returns 0 whenever it
    returns. -/
def msgSend (k : Machine) (current : Pid) (dest : ℤ) (m : Addr) : Except Fault Machine := do
  let sender := current
  assert "proc2pid(sender) != dest" (proc2pid sender ≠ dest)
  if ← deadlock k.procTable (proc2pid sender) dest then
    .error (.panic "")
  else do
    let pDest ← slot dest
    if (k.procTable pDest).pFlags &&& RECEIVING ≠ 0 ∧
        ((k.procTable pDest).pRecvfrom = proc2pid sender ∨ (k.procTable pDest).pRecvfrom = ANY) then
      msgSendDeliver k sender pDest m
    else
      msgSendBlock k sender pDest dest m

/-! ## `msg_receive` -/

/-- The copy of the interrupt message to `la` (process.c:684-689). The message
    is built on the kernel stack: all zero but for `source` and `type`. -/
def writeInterrupt (mem : Mem) (la : Addr) : Mem :=
  let mem := pAsmMemset mem la 0 sizeofMessage
  let mem := writeWord mem (la + offSource) (BitVec.ofInt 32 INTERRUPT)
  writeWord mem (la + offType) HARD_INT

/-- The branch of `msg_receive` for a pending interrupt (process.c:682-696). -/
def msgReceiveInterrupt (k : Machine) (who : Pid) (m : Addr) : Except Fault Machine := do
  assert "m" (m ≠ 0)
  let la ← va2la k (proc2pid who) m
  let k := { k with mem := writeInterrupt k.mem la }
  let k := k.modify who fun p => { p with hasIntMsg := 0 }
  assert "who_wanna_recv->p_flags == 0" ((k.procTable who).pFlags = 0)
  assert "who_wanna_recv->msg == 0" ((k.procTable who).msg = 0)
  assert "who_wanna_recv->p_sendto == NO_TASK" ((k.procTable who).pSendto = NO_TASK)
  assert "who_wanna_recv->has_int_msg == 0" ((k.procTable who).hasIntMsg = 0)
  .ok k

/-- The search for `src` in the receiver's queue (process.c:728-739): the loop
    stops at the element whose number is `src`, or at the end, and leaves the
    element before it in `prev`. -/
def searchSending (t : ProcTable) (src : ℤ) (pFrom : Pid) :
    ℕ → Option Pid → Option Pid → Except Fault (Option Pid)
  | 0, _, _ => .error .spin
  | _ + 1, prev, none => .ok prev
  | fuel + 1, prev, some p => do
    assert "from->p_flags & SENDING" ((t pFrom).pFlags &&& SENDING ≠ 0)
    if proc2pid p = src then .ok prev
    else searchSending t src pFrom fuel (some p) (t p).nextSending

/-- The nine checks made on both parties once a waiting sender has been found
    (process.c:705-714 and 741-750). -/
def msgReceiveChecks (t : ProcTable) (who pFrom : Pid) : Except Fault Unit := do
  assert "who_wanna_recv->p_flags == 0" ((t who).pFlags = 0)
  assert "who_wanna_recv->msg == 0" ((t who).msg = 0)
  assert "who_wanna_recv->p_recvfrom == NO_TASK" ((t who).pRecvfrom = NO_TASK)
  assert "who_wanna_recv->p_sendto == NO_TASK" ((t who).pSendto = NO_TASK)
  assert "who_wanna_recv->q_sending != 0" ((t who).qSending ≠ none)
  assert "from->p_flags == SENDING" ((t pFrom).pFlags = SENDING)
  assert "from->msg != 0" ((t pFrom).msg ≠ 0)
  assert "from->p_recvfrom == NO_TASK" ((t pFrom).pRecvfrom = NO_TASK)
  assert "from->p_sendto == proc2pid(who_wanna_recv)" ((t pFrom).pSendto = proc2pid who)

/-- What the first half of `msg_receive` decides: `copyok` with `from` and
    `prev`, or `copyok = 0` with the number to wait for. -/
inductive Selection where
  | take (pFrom : Pid) (prev : Option Pid)
  | wait (pRecvfrom : ℤ)

/-- The first half of `msg_receive` (process.c:698-752). -/
def msgReceiveSelect (t : ProcTable) (who : Pid) (src : ℤ) : Except Fault Selection :=
  if src = ANY then
    match (t who).qSending with
    | some pFrom => do
      msgReceiveChecks t who pFrom
      .ok (.take pFrom none)
    | none => .ok (.wait ANY)
  else do
    let pFrom ← slot src
    if (t pFrom).pFlags &&& SENDING ≠ 0 ∧ (t pFrom).pSendto = proc2pid who then do
      assert "p" ((t who).qSending ≠ none)
      let prev ← searchSending t src pFrom 36 none (t who).qSending
      msgReceiveChecks t who pFrom
      .ok (.take pFrom prev)
    else .ok (.wait (proc2pid pFrom))

/-- Removing the sender from the head of the receiver's queue, or from behind
    `prev` (process.c:757-768). -/
def unlinkSending (k : Machine) (who pFrom : Pid) (prev : Option Pid) : Except Fault Machine :=
  if some pFrom = (k.procTable who).qSending then do
    assert "prev == 0" (prev = none)
    let k := k.modify who fun p => { p with qSending := (k.procTable pFrom).nextSending }
    .ok (k.modify pFrom fun p => { p with nextSending := none })
  else
    match prev with
    | none => .error (.assertion "prev")
    | some prev =>
      let k := k.modify prev fun p => { p with nextSending := (k.procTable pFrom).nextSending }
      .ok (k.modify pFrom fun p => { p with nextSending := none })

/-- The branch of `msg_receive` that takes the message of a waiting sender
    (process.c:755-776). -/
def msgReceiveTake (k : Machine) (who pFrom : Pid) (prev : Option Pid) (m : Addr) :
    Except Fault Machine := do
  let k ← unlinkSending k who pFrom prev
  assert "m" (m ≠ 0)
  assert "from->msg" ((k.procTable pFrom).msg ≠ 0)
  let la ← va2la k (proc2pid who) m
  let ls ← va2la k (proc2pid pFrom) (k.procTable pFrom).msg
  let k := { k with mem := pAsmMemcpy k.mem la ls sizeofMessage }
  let k := k.modify pFrom fun p => { p with msg := 0 }
  let k := k.modify pFrom fun p => { p with pSendto := NO_TASK }
  let k := k.modify pFrom fun p => { p with pFlags := p.pFlags &&& ~~~SENDING }
  unblock k pFrom
  .ok k

/-- The branch of `msg_receive` that blocks the receiver
    (process.c:777-789). -/
def msgReceiveBlock (k : Machine) (who : Pid) (pRecvfrom : ℤ) (m : Addr) :
    Except Fault Machine := do
  let k := k.modify who fun p => { p with pFlags := p.pFlags ||| RECEIVING }
  let k := k.modify who fun p => { p with msg := m }
  let k := k.modify who fun p => { p with pRecvfrom := pRecvfrom }
  let k ← block k who
  assert "who_wanna_recv->p_flags == RECEIVING" ((k.procTable who).pFlags = RECEIVING)
  assert "who_wanna_recv->msg != 0" ((k.procTable who).msg ≠ 0)
  assert "who_wanna_recv->p_recvfrom != NO_TASK" ((k.procTable who).pRecvfrom ≠ NO_TASK)
  assert "who_wanna_recv->p_sendto == NO_TASK" ((k.procTable who).pSendto = NO_TASK)
  assert "who_wanna_recv->has_int_msg == 0" ((k.procTable who).hasIntMsg = 0)
  .ok k

/-- `msg_receive(current, src, m)` (process.c:673-791). It returns 0 whenever
    it returns. -/
def msgReceive (k : Machine) (current : Pid) (src : ℤ) (m : Addr) : Except Fault Machine := do
  let who := current
  assert "proc2pid(who_wanna_recv) != src" (proc2pid who ≠ src)
  if (k.procTable who).hasIntMsg ≠ 0 ∧ (src = ANY ∨ src = INTERRUPT) then
    msgReceiveInterrupt k who m
  else do
    match ← msgReceiveSelect k.procTable who src with
    | .take pFrom prev => msgReceiveTake k who pFrom prev m
    | .wait pRecvfrom => msgReceiveBlock k who pRecvfrom m

/-! ## `sys_sendrec` -/

/-- `sys_sendrec(function, src_dest, m, p)` (syscall.c:100-129). It returns 0
    whenever it returns. -/
def sysSendrec (k : Machine) (function srcDest : ℤ) (m : Addr) (p : Pid) :
    Except Fault Machine := do
  assert "k_reenter == 0" (k.kReenter = 0)
  assert "(src_dest >= 0 && src_dest < NR_TASKS + NR_PROCS) || src_dest == ANY || src_dest == INTERRUPT"
    ((0 ≤ srcDest ∧ srcDest < NR_TASKS + NR_PROCS) ∨ srcDest = ANY ∨ srcDest = INTERRUPT)
  let caller := proc2pid p
  let msg ← va2la k caller m
  let k := { k with mem := writeWord k.mem (msg + offSource) (BitVec.ofInt 32 caller) }
  assert "msg->source != src_dest" ((readWord k.mem (msg + offSource)).toInt ≠ srcDest)
  if function = SEND then msgSend k p srcDest m
  else if function = RECEIVE then msgReceive k p srcDest m
  else .error (.panic "invalid function:")

end SimpleOs
