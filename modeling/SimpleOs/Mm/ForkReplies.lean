import SimpleOs.Kernel.Rendezvous
import SimpleOs.Mm.Clients
import SimpleOs.Mm.Sound

/-!
# The replies to a FORK

`do_fork` gives the child a copy of the whole slot of its parent. When the parent
has not come to its receive yet, the child has not either; when the parent is
blocked in it, so is the child. `task_mm` then sends twice: to the child, in
`do_fork`, and to the parent, at the end of its loop. Either send can block it.
Each of the two processes reads `PID` of its message when it runs again
(syscall.c:37).

The three parties make their calls in any order; between two calls anything may
happen that leaves these three alone (`Undisturbed`).

* `Replying.step`: from the birth of the child on, every call returns and leads to
  a later phase. What the child reads is the answer to it when its message and that
  of the parent are different memory.
-/

namespace SimpleOs

open ByteMem Transition Intrusive

/-! ## The system -/

/-- Where a process is in `fork`: not in it, between the two calls of `send_recv`,
    blocked in the second, or behind it, with the message still to be read. -/
inductive Stage where
  | away
  | due
  | parked
  | served
  deriving DecidableEq

/-- The machine, the point of `task_mm`, where the processes are, the messages from
    `task_mm` that have arrived, and those that each process has read. -/
structure ForkState where
  k : Machine
  pc : MmPc
  stage : Pid → Stage
  got : List Event
  read : Pid → List Message

/-- The child continues where its parent does. -/
def ForkState.born (s : ForkState) (parent : Pid) : MmPc → Pid → Stage
  | .forkSend _ child => Function.update s.stage child (s.stage parent)
  | _ => s.stage

/-- The receivers of `l` have their message. -/
def serve (stage : Pid → Stage) (l : List Event) : Pid → Stage := fun p =>
  if ∃ e ∈ l, e.dst = p then .served else stage p

/-- `task_mm` has made a step. -/
def ForkState.afterTask (s : ForkState) (parent : Pid) (k k' : Machine) (pc' : MmPc) :
    ForkState where
  k := k'
  pc := pc'
  stage := serve (s.born parent pc') (mmDelivered k k')
  got := s.got ++ mmDelivered k k'
  read := s.read

/-- The process `c` has made its receive. -/
def ForkState.afterReceive (s : ForkState) (k k' : Machine) (c : Pid) (m : Addr) :
    ForkState where
  k := k'
  pc := s.pc
  stage := serve (Function.update s.stage c .parked) (receiveReceived k k' c m)
  got := s.got ++ receiveReceived k k' c m
  read := s.read

/-- The process `c` has read its message, and `fork` returns. -/
def ForkState.afterRead (s : ForkState) (k : Machine) (c : Pid) (m : Addr) : ForkState where
  k := k
  pc := s.pc
  stage := Function.update s.stage c .away
  got := s.got
  read := Function.update s.read c (s.read c ++ [readMessage k.mem (linear k.procTable c m)])

/-- The processes that `q_sending` of `c` leads to. -/
def SendChain (t : ProcTable) (c : Pid) (l : List Pid) : Prop := Linked (links t) (t c).qSending l

/-- What may have happened since the last call: anything that leaves the processes
    in `fork`, their queues, the messages that have arrived and those of `task_mm`
    alone. Slots are filled and freed by `task_mm` only. -/
structure Undisturbed (img : MmImage) (m : Addr) (s : ForkState) (k : Machine) : Prop where
  kReenter : k.kReenter = s.k.kReenter
  ldtCode : ∀ p, (k.procTable p).ldtCode = (s.k.procTable p).ldtCode
  ldtData : ∀ p, (k.procTable p).ldtData = (s.k.procTable p).ldtData
  free : ∀ p, (k.procTable p).pFlags = FREE_SLOT ↔ (s.k.procTable p).pFlags = FREE_SLOT
  task : SameIpc (s.k.procTable TASK_MM) (k.procTable TASK_MM)
  party : ∀ p, s.stage p ≠ .away → SameIpc (s.k.procTable p) (k.procTable p) ∧
    (∀ l, SendChain s.k.procTable p l → SendChain k.procTable p l) ∧
    (k.procTable p).hasIntMsg = (s.k.procTable p).hasIntMsg
  mem : ∀ a, InMessage img.mmMsg a ∨ InMessage img.forkMsg a → k.mem a = s.k.mem a
  served : ∀ p, s.stage p = .served → ∀ a, InMessage (linear s.k.procTable p m) a →
    k.mem a = s.k.mem a

/-- A step of a ready party: one of `task_mm`, which ends when it is back at the start
    of its loop, or the receive of a process in `fork`, whose message is at `m`, or
    the look at the message behind it. -/
inductive ForkStep (img : MmImage) (parent : Pid) (m : Addr) (s : ForkState) : ForkState → Prop
  | task {k k' : Machine} {pc' : MmPc} (eax : BitVec 32) (hq : Undisturbed img m s k)
      (hpc : s.pc ≠ .receive) (hready : (k.procTable TASK_MM).pFlags = 0)
      (h : mmStep img eax k s.pc = .ok (k', pc')) :
      ForkStep img parent m s (s.afterTask parent k k' pc')
  | receive {k k' : Machine} (c : Pid) (hq : Undisturbed img m s k) (hc : s.stage c = .due)
      (hready : (k.procTable c).pFlags = 0)
      (h : sysSendrec k RECEIVE (proc2pid TASK_MM) m c = .ok k') :
      ForkStep img parent m s (s.afterReceive k k' c m)
  | read {k : Machine} (c : Pid) (hq : Undisturbed img m s k) (hc : s.stage c = .served)
      (hready : (k.procTable c).pFlags = 0) : ForkStep img parent m s (s.afterRead k c m)

/-- No assertion fails: whatever has happened since the last call, the calls of the
    ready parties return. -/
def ForkSafe (img : MmImage) (m : Addr) (s : ForkState) : Prop :=
  ∀ k, Undisturbed img m s k →
    (s.pc ≠ .receive → (k.procTable TASK_MM).pFlags = 0 → ∀ eax,
      ∃ r, mmStep img eax k s.pc = .ok r) ∧
    ∀ c, s.stage c = .due → (k.procTable c).pFlags = 0 →
      ∃ k', sysSendrec k RECEIVE (proc2pid TASK_MM) m c = .ok k'

/-- The answer to a FORK, with the given number in it. -/
def Message.Answers (msg : Message) (pid : BitVec 32) : Prop :=
  msg.type = SYSCALL_RET ∧ msg.pid = pid

/-- The end: `task_mm` is ready for its RECEIVE ANY, and both processes have
    returned from `fork` with one message each, the one that was sent to them. -/
structure ForkDone (parent child : Pid) (s : ForkState) : Prop where
  pc : s.pc = .receive
  task : (s.k.procTable TASK_MM).pFlags = 0
  returned : s.stage parent = .away ∧ s.stage child = .away
  replies : ∃ toChild toParent : Message,
    s.got = [⟨TASK_MM, child, toChild⟩, ⟨TASK_MM, parent, toParent⟩] ∧
    s.read child = [toChild] ∧ s.read parent = [toParent] ∧
    toChild.Answers 0 ∧ toParent.Answers (BitVec.ofInt 32 (proc2pid child))

/-- `task_mm` has a FORK of `parent` in hand and there is a free slot; nobody waits
    in a send to `parent`, which is between the calls of its `send_recv` or blocked
    in the second. The messages of `task_mm` are no memory of the other two, and the
    child's name has room in its slot. -/
structure ForkTaken (img : MmImage) (s : MmState) (parent child : Pid) (m : Addr) : Prop where
  pc : s.pc = .dispatch
  ready : (s.k.procTable TASK_MM).pFlags = 0
  type : mmType img s.k = FORK
  source : mmSource img s.k = proc2pid parent
  ne : parent ≠ TASK_MM
  free : findFreeSlot s.k.procTable = some child
  queue : (s.k.procTable parent).qSending = none
  position : (s.k.procTable parent).pFlags = 0 ∨
    ((s.k.procTable parent).pFlags = RECEIVING ∧
      (s.k.procTable parent).pRecvfrom = proc2pid TASK_MM ∧ (s.k.procTable parent).msg = m)
  addr : m ≠ 0 ∧ img.mmMsg ≠ 0 ∧ img.forkMsg ≠ 0
  apart : Separate img.mmMsg img.forkMsg
  parentApart : Separate (linear s.k.procTable parent m) img.mmMsg ∧
    Separate (linear s.k.procTable parent m) img.forkMsg
  childApart : Separate (childBase + m) img.mmMsg ∧ Separate (childBase + m) img.forkMsg
  name : ForkNameFits s.k.procTable parent child

/-- The state in which the FORK is taken. -/
def ForkState.start (s : MmState) (parent : Pid) : ForkState where
  k := s.k
  pc := s.pc
  stage := fun p =>
    if p = parent then if (s.k.procTable p).pFlags = 0 then .due else .parked else .away
  got := []
  read := fun _ => []

/-! ## The parties -/

/-- The slot of a process that is to get its message. -/
def AtStage (m : Addr) (p : Process) : Stage → Prop
  | .due => p.Ready ∧ p.hasIntMsg = 0
  | .parked => p.InReceive ∧ p.pRecvfrom = proc2pid TASK_MM ∧ p.msg = m
  | .away => False
  | .served => False

/-- The process is in `fork`, and `task_mm` is not sending to it yet. -/
structure InFork (m : Addr) (l : List Pid) (s : ForkState) (c : Pid) : Prop where
  slot : AtStage m (s.k.procTable c) (s.stage c)
  queue : SendChain s.k.procTable c l
  unread : s.read c = []

/-- `task_mm` is blocked in the send of the message at `b` to `c`, which has yet to
    make its receive. -/
structure Meeting (s : ForkState) (c : Pid) (b : Addr) : Prop where
  due : s.stage c = .due
  ready : (s.k.procTable c).Ready
  noInt : (s.k.procTable c).hasIntMsg = 0
  queue : ∃ l, l.Nodup ∧ TASK_MM ∉ l ∧ SendChain s.k.procTable c (l ++ [TASK_MM])
  task : (s.k.procTable TASK_MM).InSend
  sendto : (s.k.procTable TASK_MM).pSendto = proc2pid c
  msg : (s.k.procTable TASK_MM).msg = b
  unread : s.read c = []

/-- The message `msg` has arrived at `c`, which is about to read it or has read it;
    when `D` holds, it reads that message. -/
inductive HasMessage (D : Prop) (m : Addr) (s : ForkState) (c : Pid) (msg : Message) : Prop
  | due (hstage : s.stage c = .served) (hready : (s.k.procTable c).pFlags = 0)
      (hunread : s.read c = [])
      (hfound : D → readMessage s.k.mem (linear s.k.procTable c m) = msg)
  | read (hstage : s.stage c = .away) (r : Message) (hread : s.read c = [r]) (hown : D → r = msg)

/-- What holds from the birth of the child on. `D` says whether the messages of the
    parent and the child are different memory or one. -/
structure Scene (D : Prop) (img : MmImage) (parent child : Pid) (m : Addr)
    (s : ForkState) : Prop where
  kReenter : s.k.kReenter = 0
  flat : NativeFlat s.k.procTable
  parentNe : parent ≠ TASK_MM
  childNe : child ≠ TASK_MM
  ne : parent ≠ child
  others : ∀ c, s.stage c ≠ .away → c = parent ∨ c = child
  addr : m ≠ 0 ∧ img.mmMsg ≠ 0 ∧ img.forkMsg ≠ 0
  apart : Separate img.mmMsg img.forkMsg
  bufs : ∀ c, c = parent ∨ c = child → Separate (linear s.k.procTable c m) img.mmMsg ∧
    Separate (linear s.k.procTable c m) img.forkMsg
  own : D → Separate (linear s.k.procTable parent m) (linear s.k.procTable child m)
  shared : ¬ D → linear s.k.procTable child m = linear s.k.procTable parent m
  /-- `mm_msg.PID`. -/
  pid : readWord s.k.mem (img.mmMsg + offM3i2) = BitVec.ofInt 32 (proc2pid child)

/-! ### Between the calls -/

/-- The state with the machine as the others have left it. -/
def ForkState.on (s : ForkState) (k : Machine) : ForkState := { s with k := k }

section Elapsed

variable {D : Prop} {img : MmImage} {parent child : Pid} {m b : Addr} {l : List Pid}
  {s : ForkState} {k : Machine} {c : Pid} {msg : Message}

theorem AtStage.inside {p : Process} {st : Stage} (h : AtStage m p st) : st ≠ .away := by
  rintro rfl
  exact h

theorem AtStage.congr {p q : Process} {st : Stage} (h : AtStage m p st) (hipc : SameIpc p q)
    (hint : q.hasIntMsg = p.hasIntMsg) : AtStage m q st := by
  cases st with
  | away => exact h
  | served => exact h
  | due =>
    obtain ⟨hready, hnoInt⟩ := h
    exact ⟨hipc.ready hready, hint.trans hnoInt⟩
  | parked =>
    obtain ⟨hrecv, hfrom, hmsg⟩ := h
    exact ⟨hipc.inReceive hrecv, hipc.recvfrom.trans hfrom, hipc.msg.trans hmsg⟩

theorem InFork.inside (h : InFork m l s c) : s.stage c ≠ .away := h.slot.inside

theorem InFork.on (h : InFork m l s c) (hq : Undisturbed img m s k) : InFork m l (s.on k) c := by
  obtain ⟨hipc, hqueue, hint⟩ := hq.party c h.inside
  exact ⟨h.slot.congr hipc hint, hqueue l h.queue, h.unread⟩

theorem Meeting.on (h : Meeting s c b) (hq : Undisturbed img m s k) : Meeting (s.on k) c b := by
  obtain ⟨hipc, hqueue, hint⟩ := hq.party c (by rw [h.due]; nofun)
  obtain ⟨l, hnd, hl, hchain⟩ := h.queue
  exact ⟨h.due, hipc.ready h.ready, hint.trans h.noInt, ⟨l, hnd, hl, hqueue _ hchain⟩,
    hq.task.inSend h.task, hq.task.sendto.trans h.sendto, hq.task.msg.trans h.msg, h.unread⟩

theorem Undisturbed.linear (hq : Undisturbed img m s k) (c : Pid) (va : Addr) :
    linear k.procTable c va = linear s.k.procTable c va := by
  rw [SimpleOs.linear, SimpleOs.linear, hq.ldtData]

/-- The messages of `task_mm` are as they were. -/
theorem Undisturbed.message (hq : Undisturbed img m s k) (hb : b = img.mmMsg ∨ b = img.forkMsg) :
    readMessage k.mem b = readMessage s.k.mem b := by
  refine readMessage_frame fun a ha => hq.mem a ?_
  rcases hb with rfl | rfl
  · exact .inl ha
  · exact .inr ha

theorem HasMessage.on (h : HasMessage D m s c msg) (hq : Undisturbed img m s k) :
    HasMessage D m (s.on k) c msg := by
  cases h with
  | due hstage hready hunread hfound =>
    obtain ⟨hipc, _⟩ := hq.party c (by rw [hstage]; nofun)
    refine .due hstage (hipc.flags.trans hready) hunread fun hD => ?_
    change readMessage k.mem (SimpleOs.linear k.procTable c m) = msg
    rw [hq.linear]
    exact (readMessage_frame fun a ha => hq.served c hstage a ha).trans (hfound hD)
  | read hstage r hread hown => exact .read hstage r hread hown

theorem Scene.on (h : Scene D img parent child m s) (hq : Undisturbed img m s k) :
    Scene D img parent child m (s.on k) := by
  refine ⟨hq.kReenter.trans h.kReenter, fun p hp => ?_, h.parentNe, h.childNe, h.ne, h.others,
    h.addr, h.apart, fun c hc => ?_, fun hD => ?_, fun hD => ?_, ?_⟩
  · change ldtSegLinear (k.procTable p).ldtData = 0
    rw [hq.ldtData]
    exact h.flat p hp
  · change Separate (linear k.procTable c m) _ ∧ Separate (linear k.procTable c m) _
    rw [hq.linear]
    exact h.bufs c hc
  · change Separate (linear k.procTable parent m) (linear k.procTable child m)
    rw [hq.linear, hq.linear]
    exact h.own hD
  · change linear k.procTable child m = linear k.procTable parent m
    rw [hq.linear, hq.linear]
    exact h.shared hD
  · have hmsg := congrArg Message.m3i2 (hq.message (.inl rfl))
    exact hmsg.trans h.pid

end Elapsed

/-! ## The calls -/

section Calls

variable {img : MmImage} {parent child c : Pid} {m b : Addr} {l : List Pid} {s : ForkState}
  {k k' : Machine}

theorem accepts_of_parked (h : AtStage m (k.procTable c) .parked) :
    Accepts k.procTable c TASK_MM := by
  obtain ⟨hrecv, hfrom, _⟩ := h
  refine ⟨?_, .inl hfrom⟩
  rw [hrecv.flags]
  decide

theorem not_accepts_of_due (h : (k.procTable c).Ready) : ¬ Accepts k.procTable c TASK_MM := by
  intro hc
  rw [Accepts, h.flags] at hc
  exact hc.1 (by decide)

/-- A send of `task_mm` to a process in `fork` returns. -/
theorem mmSend_ok (hk : k.kReenter = 0) (hflat : NativeFlat k.procTable)
    (htask : (k.procTable TASK_MM).Ready) (hc : c ≠ TASK_MM) (hb : b ≠ 0) {st : Stage}
    (hslot : AtStage m (k.procTable c) st) (hq : SendChain k.procTable c l) (hnd : l.Nodup) :
    ∃ k', mmSend k (proc2pid c) b = .ok k' := by
  cases st with
  | away => exact absurd hslot id
  | served => exact absurd hslot id
  | due =>
    exact sysSendrec_send_waits hk hflat htask hslot.1 hq (nodup_length_le hnd) hc.symm hb
  | parked =>
    exact sysSendrec_send_meets hk hflat htask hslot.1 (accepts_of_parked hslot) hc.symm hb

/-- The task's own addresses are linear. -/
theorem linear_task (hflat : NativeFlat k.procTable) (va : Addr) :
    linear k.procTable TASK_MM va = va := by
  rw [linear, hflat TASK_MM (by decide)]
  exact BitVec.zero_add va

/-- A message that `task_mm` has sent. -/
def fromTask (msg : Message) : Message :=
  { msg with source := BitVec.ofInt 32 (proc2pid TASK_MM) }

theorem Message.Answers.fromTask {msg : Message} {pid : BitVec 32} (h : msg.Answers pid) :
    (fromTask msg).Answers pid := h

/-- What has happened when a send of `task_mm` to `c` returns: it was delivered, or
    `task_mm` waits for `c`. Here `k` is the machine before the message is put
    together, `k₁` the one with the message. -/
theorem mmSent_cases (k₁ : Machine) (hflat : NativeFlat k.procTable)
    (htask : (k.procTable TASK_MM).Ready) (hk₁ : k₁.procTable = k.procTable) {st : Stage}
    (hslot : AtStage m (k.procTable c) st) (hq : SendChain k.procTable c l) (hnd : l.Nodup)
    (hapart : Separate (linear k.procTable c m) b) (h : MmSent k₁ c b k') :
    (st = .parked ∧ k'.procTable = deliver k.procTable c ∧
      mmDelivered k k' = [⟨TASK_MM, c, fromTask (readMessage k₁.mem b)⟩] ∧
      readMessage k'.mem (linear k.procTable c m) = fromTask (readMessage k₁.mem b) ∧
      readMessage k'.mem b = fromTask (readMessage k₁.mem b) ∧
      ∀ a, ¬ InMessage b a → ¬ InMessage (linear k.procTable c m) a → k'.mem a = k₁.mem a) ∨
    (st = .due ∧ k'.procTable = enqueue k.procTable TASK_MM c b l.getLast? ∧
      mmDelivered k k' = [] ∧ readMessage k'.mem b = fromTask (readMessage k₁.mem b) ∧
      ∀ a, ¬ InMessage b a → k'.mem a = k₁.mem a) := by
  have hlin : linear k₁.procTable TASK_MM b = b := by
    rw [hk₁]
    exact linear_task hflat b
  have hstamp : readMessage (stampSource k₁ TASK_MM b).mem b = fromTask (readMessage k₁.mem b) := by
    have hmsg := stampSource_message k₁ TASK_MM b
    rw [hlin] at hmsg
    exact hmsg
  have hout : ∀ a, ¬ InMessage b a → (stampSource k₁ TASK_MM b).mem a = k₁.mem a := by
    intro a ha
    apply stampSource_kept
    rw [hlin]
    exact ha
  have he := h.outcome.effect
  have hdelivered := mmDelivered_eq htask.flags hk₁ he
  cases he with
  | delivered hacc hflags htable hmem =>
    rw [hk₁] at hacc htable hmem
    have hparked : st = .parked := by
      cases st with
      | away => exact absurd hslot id
      | served => exact absurd hslot id
      | due => exact absurd hacc (not_accepts_of_due hslot.1)
      | parked => rfl
    subst hparked
    rw [hslot.2.2] at hmem
    have hlin' : linear k.procTable TASK_MM b = b := linear_task hflat b
    rw [hlin'] at hmem
    have hcopy : readMessage k'.mem (linear k.procTable c m) =
        fromTask (readMessage k₁.mem b) := by
      rw [hmem, readMessage_copy hapart.noForwardOverlap, hstamp]
    refine .inl ⟨rfl, htable, ?_, hcopy, ?_, fun a ha ha' => ?_⟩
    · rcases hdelivered with ⟨_, hd⟩ | ⟨hno, _⟩
      · rw [hd, hslot.2.2, hcopy]
      · exact absurd hacc hno
    · rw [← hstamp, hmem]
      exact readMessage_frame fun a ha => copy_out fun hc => hapart a hc ha
    · rw [hmem]
      exact (copy_out ha').trans (hout a ha)
  | queued hacc tail htail htable hmem =>
    rw [hk₁] at hacc htail htable
    have hdue : st = .due := by
      cases st with
      | away => exact absurd hslot id
      | served => exact absurd hslot id
      | due => rfl
      | parked => exact absurd (accepts_of_parked hslot) hacc
    subst hdue
    obtain rfl := (findsTail_iff_of_linked hq (nodup_length_le hnd)).mp htail
    refine .inr ⟨rfl, htable, ?_, ?_, fun a ha => ?_⟩
    · rcases hdelivered with ⟨hyes, _⟩ | ⟨_, hd⟩
      · exact absurd hyes hacc
      · exact hd
    · rw [hmem]
      exact hstamp
    · rw [hmem]
      exact hout a ha

/-- A receive that finds `task_mm` not sending. -/
theorem receive_parks (hint : (k.procTable c).hasIntMsg = 0)
    (hno : ¬ SendsTo k.procTable TASK_MM c)
    (h : sysSendrec k RECEIVE (proc2pid TASK_MM) m c = .ok k') :
    k'.procTable = park k.procTable c (proc2pid TASK_MM) m ∧ receiveReceived k k' c m = [] ∧
      ∀ a, ¬ InMessage (linear k.procTable c m) a → k'.mem a = k.mem a := by
  cases (sysSendrec_receive hint h).from_proc with
  | taken prev hfound _ _ _ => exact absurd hfound.sendsTo hno
  | parked _ htable hmem =>
    refine ⟨htable, ?_, fun a ha => ?_⟩
    · rw [receiveReceived, htable, completed_sameQueues (sameQueues_park _ c _ _)]
      rfl
    · rw [hmem]
      exact stampSource_kept ha

/-- A receive that takes the message of `task_mm`. -/
theorem receive_from_task (hflat : NativeFlat k.procTable) (hint : (k.procTable c).hasIntMsg = 0)
    (hsend : SendsTo k.procTable TASK_MM c) (hmsg : (k.procTable TASK_MM).msg = b)
    (hapart : Separate (linear k.procTable c m) b)
    (h : sysSendrec k RECEIVE (proc2pid TASK_MM) m c = .ok k') :
    ∃ prev, FindsPrev k.procTable c TASK_MM prev ∧
      k'.procTable = dequeue k.procTable c TASK_MM prev ∧
      receiveReceived k k' c m = [⟨TASK_MM, c, readMessage k.mem b⟩] ∧
      readMessage k'.mem (linear k.procTable c m) = readMessage k.mem b ∧
      ∀ a, ¬ InMessage (linear k.procTable c m) a → k'.mem a = k.mem a := by
  cases (sysSendrec_receive hint h).from_proc with
  | taken prev hfound hprev htable hmem =>
    rw [hmsg, linear_task hflat] at hmem
    have hkept : readMessage (stampSource k c m).mem b = readMessage k.mem b :=
      readMessage_frame fun a ha => stampSource_kept fun hc => hapart a hc ha
    have hcopy : readMessage k'.mem (linear k.procTable c m) = readMessage k.mem b := by
      rw [hmem, readMessage_copy hapart.noForwardOverlap, hkept]
    refine ⟨prev, hprev, htable, ?_, hcopy, fun a ha => ?_⟩
    · rw [receiveReceived, htable, completed_dequeue hsend.1, List.map_singleton, hcopy]
    · rw [hmem]
      exact transfer_kept ha ha
  | parked hno _ _ => exact absurd hsend hno

/-- A receive that finds `task_mm` at the head of the queue. -/
theorem receive_meets (hflat : NativeFlat k.procTable) (hint : (k.procTable c).hasIntMsg = 0)
    (hsend : SendsTo k.procTable TASK_MM c) (hqueue : (k.procTable c).qSending = some TASK_MM)
    (hmsg : (k.procTable TASK_MM).msg = b) (hapart : Separate (linear k.procTable c m) b)
    (h : sysSendrec k RECEIVE (proc2pid TASK_MM) m c = .ok k') :
    k'.procTable = dequeue k.procTable c TASK_MM none ∧
      receiveReceived k k' c m = [⟨TASK_MM, c, readMessage k.mem b⟩] ∧
      ∀ a, ¬ InMessage (linear k.procTable c m) a → k'.mem a = k.mem a := by
  obtain ⟨prev, hprev, htable, hrecv, _, hmem⟩ := receive_from_task hflat hint hsend hmsg hapart h
  have hnone : prev = none := by
    rcases hprev with ⟨hnone, _⟩ | ⟨_, hne, _⟩
    · exact hnone
    · exact absurd hqueue hne
  subst hnone
  exact ⟨htable, hrecv, hmem⟩

end Calls

/-! ## The phases -/

/-- The calls that a party makes before `task_mm` or another party goes on. -/
def Stage.weight : Stage → ℕ
  | .due => 1
  | .served => 1
  | _ => 0

/-- From the birth of the child to the end, with a bound on the steps to come. -/
inductive Replying (D : Prop) (img : MmImage) (parent child : Pid) (m : Addr) :
    ℕ → ForkState → Prop
  /-- `task_mm` is about to send to the child. -/
  | born {s : ForkState} (h : Scene D img parent child m s)
      (hpc : s.pc = .forkSend (proc2pid parent) child) (htask : (s.k.procTable TASK_MM).Ready)
      (hparent : InFork m [] s parent) (hchild : InFork m [] s child) (hgot : s.got = []) :
      Replying D img parent child m (15 + (s.stage parent).weight + (s.stage child).weight) s
  /-- It waits for the child. -/
  | childDue {s : ForkState} (h : Scene D img parent child m s)
      (hpc : s.pc = .reply (proc2pid parent) 0) (hmeet : Meeting s child img.forkMsg)
      (hparent : InFork m [] s parent) (hgot : s.got = [])
      (hmsg : (readMessage s.k.mem img.forkMsg).Answers 0) :
      Replying D img parent child m (12 + (s.stage parent).weight) s
  /-- The child has its message, and `task_mm` is about to send to the parent. -/
  | childServed {s : ForkState} (h : Scene D img parent child m s)
      (hpc : s.pc = .reply (proc2pid parent) 0) (htask : (s.k.procTable TASK_MM).Ready)
      (hparent : InFork m [] s parent) (toChild : Message)
      (hchild : HasMessage D m s child toChild)
      (hgot : s.got = [⟨TASK_MM, child, toChild⟩]) (hans : toChild.Answers 0) :
      Replying D img parent child m (8 + (s.stage parent).weight + (s.stage child).weight) s
  /-- It waits for the parent. -/
  | parentDue {s : ForkState} (h : Scene D img parent child m s) (hpc : s.pc = .receive)
      (hmeet : Meeting s parent img.mmMsg) (toChild : Message)
      (hchild : HasMessage D m s child toChild)
      (hgot : s.got = [⟨TASK_MM, child, toChild⟩]) (hans : toChild.Answers 0)
      (hmsg : (readMessage s.k.mem img.mmMsg).Answers (BitVec.ofInt 32 (proc2pid child))) :
      Replying D img parent child m (4 + (s.stage child).weight) s
  /-- Both have their messages, and one of them is yet to read it. -/
  | bothServed {s : ForkState} (h : Scene D img parent child m s) (hpc : s.pc = .receive)
      (htask : (s.k.procTable TASK_MM).Ready) (toChild toParent : Message)
      (hchild : HasMessage D m s child toChild) (hparent : HasMessage True m s parent toParent)
      (hopen : s.stage parent = .served ∨ s.stage child = .served)
      (hgot : s.got = [⟨TASK_MM, child, toChild⟩, ⟨TASK_MM, parent, toParent⟩])
      (hans : toChild.Answers 0)
      (hans' : toParent.Answers (BitVec.ofInt 32 (proc2pid child))) :
      Replying D img parent child m ((s.stage parent).weight + (s.stage child).weight) s

/-- The end, as far as it does not depend on `D`. -/
structure ForkEnds (D : Prop) (parent child : Pid) (s : ForkState) : Prop where
  pc : s.pc = .receive
  task : (s.k.procTable TASK_MM).pFlags = 0
  returned : s.stage parent = .away ∧ s.stage child = .away
  replies : ∃ toChild byChild toParent : Message,
    s.got = [⟨TASK_MM, child, toChild⟩, ⟨TASK_MM, parent, toParent⟩] ∧
    s.read child = [byChild] ∧ (D → byChild = toChild) ∧ s.read parent = [toParent] ∧
    toChild.Answers 0 ∧ toParent.Answers (BitVec.ofInt 32 (proc2pid child))

theorem ForkEnds.done {parent child : Pid} {s : ForkState} (h : ForkEnds True parent child s) :
    ForkDone parent child s := by
  obtain ⟨toChild, byChild, toParent, hgot, hchild, hown, hparent, hans, hans'⟩ := h.replies
  rw [hown trivial] at hchild
  exact ⟨h.pc, h.task, h.returned, toChild, toParent, hgot, hchild, hparent, hans, hans'⟩

section Phases

variable {D : Prop} {img : MmImage} {parent child : Pid} {m : Addr} {s : ForkState} {k : Machine}
  {n : ℕ}

theorem Message.Answers.congr {a b : Message} {pid : BitVec 32} (h : a.Answers pid) (hab : b = a) :
    b.Answers pid := by
  rw [hab]
  exact h

theorem Replying.on (h : Replying D img parent child m n s) (hq : Undisturbed img m s k) :
    Replying D img parent child m n (s.on k) := by
  cases h with
  | born h hpc htask hparent hchild hgot =>
    exact .born (s := s.on k) (h.on hq) hpc (hq.task.ready htask) (hparent.on hq) (hchild.on hq)
      hgot
  | childDue h hpc hmeet hparent hgot hmsg =>
    exact .childDue (s := s.on k) (h.on hq) hpc (hmeet.on hq) (hparent.on hq) hgot
      (hmsg.congr (hq.message (.inr rfl)))
  | childServed h hpc htask hparent toChild hchild hgot hans =>
    exact .childServed (s := s.on k) (h.on hq) hpc (hq.task.ready htask) (hparent.on hq) toChild
      (hchild.on hq) hgot hans
  | parentDue h hpc hmeet toChild hchild hgot hans hmsg =>
    exact .parentDue (s := s.on k) (h.on hq) hpc (hmeet.on hq) toChild (hchild.on hq) hgot hans
      (hmsg.congr (hq.message (.inl rfl)))
  | bothServed h hpc htask toChild toParent hchild hparent hopen hgot hans hans' =>
    exact .bothServed (s := s.on k) (h.on hq) hpc (hq.task.ready htask) toChild toParent
      (hchild.on hq) (hparent.on hq) hopen hgot hans hans'

theorem Undisturbed.refl (img : MmImage) (m : Addr) (s : ForkState) : Undisturbed img m s s.k :=
  ⟨rfl, fun _ => rfl, fun _ => rfl, fun _ => Iff.rfl, ⟨rfl, rfl, rfl, rfl⟩,
    fun _ _ => ⟨⟨rfl, rfl, rfl, rfl⟩, fun _ h => h, rfl⟩, fun _ _ => rfl, fun _ _ _ _ => rfl⟩

theorem Meeting.sendsTo {c : Pid} {b : Addr} (h : Meeting s c b) :
    SendsTo s.k.procTable TASK_MM c := by
  refine ⟨?_, h.sendto⟩
  rw [Sending, h.task.flags]
  decide

theorem HasMessage.not_due {c : Pid} {msg : Message} (h : HasMessage D m s c msg) :
    s.stage c ≠ .due := by
  cases h with
  | due hstage => rw [hstage]; nofun
  | read hstage => rw [hstage]; nofun

theorem HasMessage.weaken {D' : Prop} {c : Pid} {msg : Message} (h : HasMessage D m s c msg)
    (hD : D' → D) : HasMessage D' m s c msg := by
  cases h with
  | due hstage hready hunread hfound => exact .due hstage hready hunread (hfound ∘ hD)
  | read hstage r hread hown => exact .read hstage r hread (hown ∘ hD)

/-! ### Every call returns -/

theorem Meeting.receive_ok {c : Pid} {b : Addr} (hmeet : Meeting s c b) (hk : s.k.kReenter = 0)
    (hflat : NativeFlat s.k.procTable) (hm : m ≠ 0) (hc : c ≠ TASK_MM) :
    ∃ k', sysSendrec s.k RECEIVE (proc2pid TASK_MM) m c = .ok k' := by
  obtain ⟨l, hnd, hl, hchain⟩ := hmeet.queue
  exact sysSendrec_receive_meets hk hflat hmeet.ready hmeet.noInt hmeet.task hmeet.sendto
    (findsPrev_of_linked hmeet.sendsTo.1 hchain hl (nodup_length_le hnd)) hc.symm hm

/-- The receive of a process that `task_mm` is not sending to. -/
theorem InFork.receive_ok {c q : Pid} {l : List Pid} (hin : InFork m l s c)
    (h : Scene D img parent child m s) (hc : c ≠ TASK_MM) (hdue : s.stage c = .due)
    (hno : ¬ SendsTo s.k.procTable TASK_MM c) (hq : q ≠ c)
    (hready : (s.k.procTable q).pFlags = 0) :
    ∃ k', sysSendrec s.k RECEIVE (proc2pid TASK_MM) m c = .ok k' := by
  have hslot := hin.slot
  rw [hdue] at hslot
  obtain ⟨hfields, hint⟩ := hslot
  exact sysSendrec_receive_waits h.kReenter h.flat hfields hint hno hc.symm h.addr.1 ⟨q, hq, hready⟩

theorem Scene.party_ne (h : Scene D img parent child m s) {c : Pid} (hc : s.stage c ≠ .away) :
    c ≠ TASK_MM := by
  rcases h.others c hc with heq | heq
  · rw [heq]
    exact h.parentNe
  · rw [heq]
    exact h.childNe

/-- The step of `task_mm` that sends to the child. -/
theorem forkSend_ok (h : Scene D img parent child m s) (htask : (s.k.procTable TASK_MM).Ready)
    (hchild : InFork m [] s child) (eax : BitVec 32) :
    ∃ r, mmStep img eax s.k (.forkSend (proc2pid parent) child) = .ok r := by
  obtain ⟨k', hk'⟩ := mmSend_ok (k := forkMessage img s.k) h.kReenter h.flat htask h.childNe
    h.addr.2.2 hchild.slot hchild.queue List.nodup_nil
  refine ⟨(k', .reply (proc2pid parent) 0), ?_⟩
  simp only [mmStep, bind_eq_ok]
  exact ⟨k', hk', rfl⟩

/-- The step of `task_mm` that replies. -/
theorem reply_ok (h : Scene D img parent child m s) (htask : (s.k.procTable TASK_MM).Ready)
    (hparent : InFork m [] s parent) (eax retval : BitVec 32) :
    ∃ r, mmStep img eax s.k (.reply (proc2pid parent) retval) = .ok r := by
  obtain ⟨k', hk'⟩ := mmSend_ok (k := replyMessage img s.k retval) h.kReenter h.flat htask
    h.parentNe h.addr.2.1 hparent.slot hparent.queue List.nodup_nil
  refine ⟨(k', .receive), ?_⟩
  simp only [mmStep, bind_eq_ok]
  exact ⟨k', hk', rfl⟩

/-- No call fails in any phase. -/
theorem Replying.calls (h : Replying D img parent child m n s) :
    (s.pc ≠ .receive → (s.k.procTable TASK_MM).pFlags = 0 → ∀ eax,
      ∃ r, mmStep img eax s.k s.pc = .ok r) ∧
    ∀ c, s.stage c = .due → (s.k.procTable c).pFlags = 0 →
      ∃ k', sysSendrec s.k RECEIVE (proc2pid TASK_MM) m c = .ok k' := by
  cases h with
  | born h hpc htask hparent hchild hgot =>
    refine ⟨fun _ _ eax => by rw [hpc]; exact forkSend_ok h htask hchild eax, fun c hdue _ => ?_⟩
    have haway : s.stage c ≠ .away := by
      rw [hdue]
      nofun
    have hne := h.party_ne haway
    have hin : InFork m [] s c := by
      rcases h.others c haway with rfl | rfl
      · exact hparent
      · exact hchild
    exact hin.receive_ok h hne hdue (fun hs => htask.not_sending hs.1) hne.symm htask.flags
  | childDue h hpc hmeet hparent hgot hmsg =>
    refine ⟨fun _ hready => ?_, fun c hdue _ => ?_⟩
    · rw [hmeet.task.flags] at hready
      exact absurd hready (by decide)
    · rcases h.others c (by rw [hdue]; nofun) with rfl | rfl
      · refine hparent.receive_ok h h.parentNe hdue (fun hs => ?_) h.ne.symm hmeet.ready.flags
        exact h.ne (hs.unique hmeet.sendsTo)
      · exact hmeet.receive_ok h.kReenter h.flat h.addr.1 h.childNe
  | childServed h hpc htask hparent toChild hchild hgot hans =>
    refine ⟨fun _ _ eax => by rw [hpc]; exact reply_ok h htask hparent eax 0, fun c hdue _ => ?_⟩
    rcases h.others c (by rw [hdue]; nofun) with rfl | rfl
    · exact hparent.receive_ok h h.parentNe hdue (fun hs => htask.not_sending hs.1)
        h.parentNe.symm htask.flags
    · exact absurd hdue hchild.not_due
  | parentDue h hpc hmeet toChild hchild hgot hans hmsg =>
    refine ⟨fun hno _ => absurd hpc hno, fun c hdue _ => ?_⟩
    rcases h.others c (by rw [hdue]; nofun) with rfl | rfl
    · exact hmeet.receive_ok h.kReenter h.flat h.addr.1 h.parentNe
    · exact absurd hdue hchild.not_due
  | bothServed h hpc htask toChild toParent hchild hparent hopen hgot hans hans' =>
    refine ⟨fun hno _ => absurd hpc hno, fun c hdue _ => ?_⟩
    rcases h.others c (by rw [hdue]; nofun) with rfl | rfl
    · exact absurd hdue hparent.not_due
    · exact absurd hdue hchild.not_due

theorem Replying.forkSafe (h : Replying D img parent child m n s) : ForkSafe img m s :=
  fun _ hq => (h.on hq).calls

theorem HasMessage.ready {c : Pid} {msg : Message} (h : HasMessage D m s c msg)
    (hserved : s.stage c = .served) : (s.k.procTable c).pFlags = 0 := by
  cases h with
  | due _ hready => exact hready
  | read hstage =>
    rw [hstage] at hserved
    cases hserved

/-- Until both have their messages somebody can make a call. -/
theorem Replying.more_call (h : Replying D img parent child m n s) :
    (∃ s', ForkStep img parent m s s' ∧ s'.read = s.read) ∨
    ∃ toChild toParent : Message, Scene D img parent child m s ∧
      HasMessage D m s child toChild ∧ HasMessage True m s parent toParent ∧
      (s.stage parent = .served ∨ s.stage child = .served) ∧
      toParent.Answers (BitVec.ofInt 32 (proc2pid child)) := by
  obtain ⟨htaskOk, hrecvOk⟩ := h.calls
  have hq := Undisturbed.refl img m s
  have htask : s.pc ≠ .receive → (s.k.procTable TASK_MM).pFlags = 0 →
      ∃ s', ForkStep img parent m s s' ∧ s'.read = s.read := by
    intro hpc hready
    obtain ⟨⟨k', pc'⟩, hstep⟩ := htaskOk hpc hready 0
    exact ⟨_, .task 0 hq hpc hready hstep, rfl⟩
  have hrecv : ∀ c b, Meeting s c b → ∃ s', ForkStep img parent m s s' ∧ s'.read = s.read := by
    intro c b hmeet
    obtain ⟨k', hcall⟩ := hrecvOk c hmeet.due hmeet.ready.flags
    exact ⟨_, .receive c hq hmeet.due hmeet.ready.flags hcall, rfl⟩
  cases h with
  | born h hpc ht => exact .inl (htask (by rw [hpc]; nofun) ht.flags)
  | childDue h hpc hmeet => exact .inl (hrecv child _ hmeet)
  | childServed h hpc ht => exact .inl (htask (by rw [hpc]; nofun) ht.flags)
  | parentDue h hpc hmeet => exact .inl (hrecv parent _ hmeet)
  | bothServed h _ _ toChild toParent hchild hparent hopen _ _ hans' =>
    exact .inr ⟨toChild, toParent, h, hchild, hparent, hopen, hans'⟩

/-- In every phase somebody can make a step. -/
theorem Replying.more (h : Replying D img parent child m n s) :
    ∃ s', ForkStep img parent m s s' := by
  have hq := Undisturbed.refl img m s
  rcases h.more_call with ⟨s', hs', _⟩ | ⟨_, _, _, hchild, hparent, hopen, _⟩
  · exact ⟨s', hs'⟩
  · rcases hopen with hserved | hserved
    · exact ⟨_, .read parent hq hserved (hparent.ready hserved)⟩
    · exact ⟨_, .read child hq hserved (hchild.ready hserved)⟩

/-! ### The slots after a call -/

theorem serve_nil (stage : Pid → Stage) : serve stage [] = stage := by
  funext p
  simp [serve]

theorem serve_singleton (stage : Pid → Stage) (e : Event) :
    serve stage [e] = Function.update stage e.dst .served := by
  funext p
  by_cases hp : p = e.dst
  · subst hp
    simp [serve]
  · simp [serve, hp, Ne.symm hp]

/-- A send of `task_mm` after which no child is born: its receiver has the message, if
    it was waiting. -/
theorem ForkState.stage_delivered {x : Pid} {k' : Machine} {pc' : MmPc} {e : Event}
    (hborn : s.born x pc' = s.stage) (hdel : mmDelivered s.k k' = [e]) :
    (s.afterTask x s.k k' pc').stage = Function.update s.stage e.dst .served := by
  show serve (s.born x pc') (mmDelivered s.k k') = _
  rw [hborn, hdel, serve_singleton]

theorem ForkState.stage_queued {x : Pid} {k' : Machine} {pc' : MmPc}
    (hborn : s.born x pc' = s.stage) (hdel : mmDelivered s.k k' = []) :
    (s.afterTask x s.k k' pc').stage = s.stage := by
  show serve (s.born x pc') (mmDelivered s.k k') = _
  rw [hborn, hdel, serve_nil]

/-- The slot of a process that a call between two others leaves alone. -/
theorem InFork.frame {s' : ForkState} {c : Pid} {l : List Pid} (h : InFork m l s c)
    (hstage : s'.stage c = s.stage c) (hread : s'.read c = s.read c)
    (hipc : SameIpc (s.k.procTable c) (s'.k.procTable c))
    (hchain : SendChain s.k.procTable c l → SendChain s'.k.procTable c l)
    (hint : (s'.k.procTable c).hasIntMsg = (s.k.procTable c).hasIntMsg) : InFork m l s' c := by
  refine ⟨?_, hchain h.queue, hread.trans h.unread⟩
  rw [hstage]
  exact h.slot.congr hipc hint

/-- A message that a call leaves alone. -/
theorem HasMessage.frame {s' : ForkState} {c : Pid} {msg : Message} (h : HasMessage D m s c msg)
    (hstage : s'.stage c = s.stage c) (hread : s'.read c = s.read c)
    (hflags : (s'.k.procTable c).pFlags = (s.k.procTable c).pFlags)
    (hmsg : D → readMessage s'.k.mem (linear s'.k.procTable c m) =
      readMessage s.k.mem (linear s.k.procTable c m)) : HasMessage D m s' c msg := by
  cases h with
  | due hserved hready hunread hfound =>
    exact .due (hstage.trans hserved) (hflags.trans hready) (hread.trans hunread)
      fun hD => (hmsg hD).trans (hfound hD)
  | read haway r hr hown => exact .read (hstage.trans haway) r (hread.trans hr) hown

/-- The scene after a call. -/
theorem Scene.next {s' : ForkState} (h : Scene D img parent child m s) (hk : s'.k.kReenter = 0)
    (hldt : ∀ p, (s'.k.procTable p).ldtData = (s.k.procTable p).ldtData)
    (hstage : ∀ c, s'.stage c ≠ .away → s.stage c ≠ .away)
    (hpid : (readMessage s'.k.mem img.mmMsg).m3i2 = (readMessage s.k.mem img.mmMsg).m3i2) :
    Scene D img parent child m s' := by
  have hlin : ∀ c, linear s'.k.procTable c m = linear s.k.procTable c m := by
    intro c
    rw [linear, linear, hldt]
  refine ⟨hk, fun p hp => ?_, h.parentNe, h.childNe, h.ne, fun c hc => h.others c (hstage c hc),
    h.addr, h.apart, fun c hc => ?_, fun hD => ?_, fun hD => ?_, hpid.trans h.pid⟩
  · rw [hldt]
    exact h.flat p hp
  · rw [hlin]
    exact h.bufs c hc
  · rw [hlin, hlin]
    exact h.own hD
  · rw [hlin, hlin]
    exact h.shared hD

/-- `task_mm` has been queued on `c`. -/
theorem meeting_of_enqueue {s' : ForkState} {c : Pid} {b : Addr} {l : List Pid}
    (htask : (s.k.procTable TASK_MM).Ready) (hb : b ≠ 0) (hc : c ≠ TASK_MM)
    (hin : InFork m l s c) (hdue : s.stage c = .due) (hnd : l.Nodup) (hl : TASK_MM ∉ l)
    (hstage : s'.stage c = .due) (hread : s'.read c = s.read c)
    (htable : s'.k.procTable = enqueue s.k.procTable TASK_MM c b l.getLast?) :
    Meeting s' c b := by
  have hslot := hin.slot
  rw [hdue] at hslot
  obtain ⟨hready, hint⟩ := hslot
  refine ⟨hstage, ?_, ?_, ⟨l, hnd, hl, ?_⟩, ?_, ?_, ?_, hread.trans hin.unread⟩
  · rw [htable]
    exact (sameIpc_enqueue _ b _ hc).ready hready
  · rw [htable]
    exact hint
  · rw [htable]
    exact linked_enqueue b hin.queue hnd hl
  · rw [htable]
    exact inSend_enqueue c _ htask hb
  · rw [htable]
    simp [enqueue]
  · rw [htable]
    simp [enqueue]

/-! ### The messages -/

theorem answers_forkMessage (img : MmImage) (k : Machine) :
    (readMessage (forkMessage img k).mem img.forkMsg).Answers 0 := by
  refine ⟨?_, ?_⟩
  · change readWord _ (img.forkMsg + 4) = SYSCALL_RET
    unfold forkMessage
    rw [readWord_writeWord_ne (apart_offsets _ _ _ (by decide)),
      readWord_writeWord_ne (apart_offsets _ _ _ (by decide)), readWord_writeWord]
  · change readWord _ (img.forkMsg + 12) = 0
    unfold forkMessage
    rw [readWord_writeWord]

theorem answers_replyMessage {pid : BitVec 32} (retval : BitVec 32)
    (h : readWord k.mem (img.mmMsg + offM3i2) = pid) :
    (readMessage (replyMessage img k retval).mem img.mmMsg).Answers pid := by
  refine ⟨?_, ?_⟩
  · change readWord _ (img.mmMsg + 4) = SYSCALL_RET
    unfold replyMessage
    rw [readWord_writeWord]
  · change readWord _ (img.mmMsg + 12) = pid
    unfold replyMessage
    rw [readWord_writeWord_ne (apart_offsets _ _ _ (by decide)),
      readWord_writeWord_ne (apart_offsets _ _ _ (by decide))]
    exact h

/-- A word of a message lies in the message. -/
theorem inMessage_of_word {b a : Addr} (off : Addr) (hoff : off.toNat + 4 ≤ sizeofMessage)
    (h : InBlock (b + off) 4 a) : InMessage b a := by
  unfold InMessage InBlock at *
  unfold sizeofMessage at *
  bv_omega

/-- The message to the child is put together outside `mm_msg`. -/
theorem forkMessage_kept (img : MmImage) (k : Machine) {a : Addr} (h : ¬ InMessage img.forkMsg a) :
    (forkMessage img k).mem a = k.mem a := by
  unfold forkMessage
  dsimp only
  rw [writeWord_out fun hc => h (inMessage_of_word offM3i2 (by decide) hc),
    writeWord_out fun hc => h (inMessage_of_word offM3i1 (by decide) hc),
    writeWord_out fun hc => h (inMessage_of_word offType (by decide) hc)]

/-! ### The steps of `task_mm` -/

/-- A process without a queue that `task_mm` is not about. -/
theorem InFork.other_enqueue {s' : ForkState} {c x : Pid} {b : Addr} {tail : Option Pid}
    (hin : InFork m [] s x) (hx : x ≠ c) (hmm : x ≠ TASK_MM) (hstage : s'.stage x = s.stage x)
    (hread : s'.read x = s.read x)
    (htable : s'.k.procTable = enqueue s.k.procTable TASK_MM c b tail) : InFork m [] s' x := by
  refine hin.frame hstage hread ?_ (fun hq => ?_) ?_
  · rw [htable]
    exact sameIpc_enqueue _ _ _ hmm
  · have hqueue : (s'.k.procTable x).qSending = (s.k.procTable x).qSending := by
      rw [htable]
      simp [enqueue, hx]
    exact hqueue.trans hq
  · rw [htable]
    rfl

theorem InFork.other_deliver {s' : ForkState} {c x : Pid} (hin : InFork m [] s x) (hx : x ≠ c)
    (hstage : s'.stage x = s.stage x) (hread : s'.read x = s.read x)
    (htable : s'.k.procTable = deliver s.k.procTable c) : InFork m [] s' x := by
  refine hin.frame hstage hread ?_ (fun hq => ?_) ?_
  · rw [htable]
    exact sameIpc_deliver _ hx
  · rw [htable]
    exact hq
  · rw [htable]
    rfl

/-- `task_mm` has delivered its message to `c`. -/
theorem hasMessage_of_deliver {s' : ForkState} {c : Pid} {l : List Pid} {msg : Message}
    (hin : InFork m l s c) (hst : s.stage c = .parked) (hstage : s'.stage c = .served)
    (hread : s'.read c = s.read c) (htable : s'.k.procTable = deliver s.k.procTable c)
    (hmsg : readMessage s'.k.mem (linear s.k.procTable c m) = msg) : HasMessage D m s' c msg := by
  have hslot := hin.slot
  rw [hst] at hslot
  refine .due hstage ?_ (hread.trans hin.unread) fun _ => ?_
  · rw [htable]
    simp [deliver, hslot.1.flags]
  · rw [htable]
    exact hmsg

/-- `task_mm` sends to the child. -/
theorem forkSend_step {eax : BitVec 32} {k' : Machine} {pc' : MmPc}
    (h : Scene D img parent child m s) (htask : (s.k.procTable TASK_MM).Ready)
    (hparent : InFork m [] s parent) (hchild : InFork m [] s child) (hgot : s.got = [])
    (hstep : mmStep img eax s.k (.forkSend (proc2pid parent) child) = .ok (k', pc')) :
    ∃ n', n' < 15 + (s.stage parent).weight + (s.stage child).weight ∧
      Replying D img parent child m n' (s.afterTask parent s.k k' pc') := by
  cases mmStep_outcome hstep with
  | forkSend _ _ hsent =>
    obtain ⟨hbufMm, hbufFork⟩ := h.bufs child (.inr rfl)
    have hkept : ∀ a, InMessage img.mmMsg a → (forkMessage img s.k).mem a = s.k.mem a :=
      fun a ha => forkMessage_kept img s.k (h.apart a ha)
    have hk' : k'.kReenter = 0 := hsent.outcome.kReenter.trans h.kReenter
    set s' := s.afterTask parent s.k k' (.reply (proc2pid parent) 0) with hs'
    rcases mmSent_cases (forkMessage img s.k) h.flat htask rfl hchild.slot hchild.queue
      List.nodup_nil hbufFork hsent with
      ⟨hst, htable, hdel, hcopy, _, hmem⟩ | ⟨hst, htable, hdel, hmsg, hmem⟩
    · -- the child was waiting
      have hldt : ∀ p, (k'.procTable p).ldtData = (s.k.procTable p).ldtData := by
        rw [htable]
        exact fun _ => rfl
      have hstage : s'.stage = Function.update s.stage child .served :=
        s.stage_delivered rfl hdel
      have hchildStage : s'.stage child = .served := by rw [hstage, Function.update_self]
      have hparentStage : s'.stage parent = s.stage parent := by
        rw [hstage, Function.update_of_ne h.ne]
      refine ⟨8 + (s'.stage parent).weight + (s'.stage child).weight, ?_,
        .childServed ?_ rfl ?_ (hparent.other_deliver h.ne hparentStage rfl htable) _
          (hasMessage_of_deliver hchild hst hchildStage rfl htable hcopy) ?_
          (answers_forkMessage img s.k).fromTask⟩
      · rw [hparentStage, hchildStage]
        simp only [Stage.weight]
        omega
      · refine h.next hk' hldt (fun c hc => ?_) ?_
        · rw [hstage] at hc
          by_cases hcc : c = child
          · rw [hcc]
            exact hchild.inside
          · rwa [Function.update_of_ne hcc] at hc
        · refine congrArg Message.m3i2 (readMessage_frame fun a ha => ?_)
          exact (hmem a (h.apart a ha) fun hc => hbufMm a hc ha).trans (hkept a ha)
      · change (k'.procTable TASK_MM).Ready
        rw [htable]
        exact (sameIpc_deliver _ h.childNe.symm).ready htask
      · change s.got ++ mmDelivered s.k k' = _
        rw [hgot, hdel]
        rfl
    · -- `task_mm` waits for it
      have hldt : ∀ p, (k'.procTable p).ldtData = (s.k.procTable p).ldtData := by
        rw [htable]
        exact fun _ => rfl
      have hstage : s'.stage = s.stage := s.stage_queued rfl hdel
      refine ⟨12 + (s'.stage parent).weight, by rw [hstage]; omega,
        .childDue ?_ rfl ?_ (hparent.other_enqueue h.ne h.parentNe (by rw [hstage]) rfl htable) ?_
          ?_⟩
      · refine h.next hk' hldt (fun c hc => ?_) ?_
        · rwa [hstage] at hc
        · refine congrArg Message.m3i2 (readMessage_frame fun a ha => ?_)
          exact (hmem a (h.apart a ha)).trans (hkept a ha)
      · exact meeting_of_enqueue htask h.addr.2.2 h.childNe hchild hst List.nodup_nil
          List.not_mem_nil (by rw [hstage, hst]) rfl htable
      · change s.got ++ mmDelivered s.k k' = _
        rw [hgot, hdel]
        rfl
      · change (readMessage k'.mem img.forkMsg).Answers 0
        rw [hmsg]
        exact (answers_forkMessage img s.k).fromTask

/-- The reply is put together in `mm_msg`. -/
theorem replyMessage_kept (img : MmImage) (k : Machine) (retval : BitVec 32) {a : Addr}
    (h : ¬ InMessage img.mmMsg a) : (replyMessage img k retval).mem a = k.mem a := by
  unfold replyMessage
  dsimp only
  rw [writeWord_out fun hc => h (inMessage_of_word offType (by decide) hc),
    writeWord_out fun hc => h (inMessage_of_word offM3i1 (by decide) hc)]

/-- `task_mm` replies to the parent. -/
theorem reply_step {eax : BitVec 32} {k' : Machine} {pc' : MmPc} {toChild : Message}
    (h : Scene D img parent child m s) (htask : (s.k.procTable TASK_MM).Ready)
    (hparent : InFork m [] s parent) (hchild : HasMessage D m s child toChild)
    (hgot : s.got = [⟨TASK_MM, child, toChild⟩]) (hans : toChild.Answers 0)
    (hstep : mmStep img eax s.k (.reply (proc2pid parent) 0) = .ok (k', pc')) :
    ∃ n', n' < 8 + (s.stage parent).weight + (s.stage child).weight ∧
      Replying D img parent child m n' (s.afterTask parent s.k k' pc') := by
  generalize hpc : MmPc.reply (proc2pid parent) 0 = pc at hstep
  cases mmStep_outcome hstep with
  | reply src retval hsent =>
    obtain ⟨hsrc, rfl⟩ := MmPc.reply.inj hpc
    obtain rfl := proc2pid_inj.mp hsrc
    obtain ⟨hbufMm, -⟩ := h.bufs parent (.inl rfl)
    obtain ⟨hchildMm, -⟩ := h.bufs child (.inr rfl)
    have hk' : k'.kReenter = 0 := hsent.outcome.kReenter.trans h.kReenter
    have hmessage := answers_replyMessage 0 h.pid
    set s' := s.afterTask parent s.k k' .receive with hs'
    rcases mmSent_cases (replyMessage img s.k 0) h.flat htask rfl hparent.slot hparent.queue
      List.nodup_nil hbufMm hsent with
      ⟨hst, htable, hdel, hcopy, hmsg, hmem⟩ | ⟨hst, htable, hdel, hmsg, hmem⟩
    · -- the parent was waiting
      have hldt : ∀ p, (k'.procTable p).ldtData = (s.k.procTable p).ldtData := by
        rw [htable]
        exact fun _ => rfl
      have hstage : s'.stage = Function.update s.stage parent .served :=
        s.stage_delivered rfl hdel
      have hparentStage : s'.stage parent = .served := by rw [hstage, Function.update_self]
      have hchildStage : s'.stage child = s.stage child := by
        rw [hstage, Function.update_of_ne h.ne.symm]
      refine ⟨(s'.stage parent).weight + (s'.stage child).weight, ?_,
        .bothServed ?_ rfl ?_ toChild _ (hchild.frame hchildStage rfl ?_ fun hD => ?_)
          (hasMessage_of_deliver hparent hst hparentStage rfl htable hcopy) (.inl hparentStage) ?_
          hans hmessage.fromTask⟩
      · rw [hparentStage, hchildStage]
        simp only [Stage.weight]
        omega
      · refine h.next hk' hldt (fun c hc => ?_) ?_
        · rw [hstage] at hc
          by_cases hcp : c = parent
          · rw [hcp]
            exact hparent.inside
          · rwa [Function.update_of_ne hcp] at hc
        · have hpid : (readMessage k'.mem img.mmMsg).pid = BitVec.ofInt 32 (proc2pid child) := by
            rw [hmsg]
            exact hmessage.fromTask.2
          exact hpid.trans h.pid.symm
      · change (k'.procTable TASK_MM).Ready
        rw [htable]
        exact (sameIpc_deliver _ h.parentNe.symm).ready htask
      · change (k'.procTable child).pFlags = _
        rw [htable]
        exact (sameIpc_deliver _ h.ne.symm).flags
      · have hlin : linear s'.k.procTable child m = linear s.k.procTable child m := by
          rw [linear, linear]
          exact congrArg (ldtSegLinear · + m) (hldt child)
        rw [hlin]
        refine readMessage_frame fun a ha => ?_
        refine (hmem a (hchildMm a ha) fun hpa => h.own hD a hpa ha).trans ?_
        exact replyMessage_kept img s.k 0 (hchildMm a ha)
      · change s.got ++ mmDelivered s.k k' = _
        rw [hgot, hdel]
        rfl
    · -- `task_mm` waits for it
      have hldt : ∀ p, (k'.procTable p).ldtData = (s.k.procTable p).ldtData := by
        rw [htable]
        exact fun _ => rfl
      have hstage : s'.stage = s.stage := s.stage_queued rfl hdel
      have hanswers :
          (readMessage k'.mem img.mmMsg).Answers (BitVec.ofInt 32 (proc2pid child)) := by
        rw [hmsg]
        exact hmessage.fromTask
      refine ⟨4 + (s'.stage child).weight, by rw [hstage]; omega,
        .parentDue ?_ rfl ?_ toChild (hchild.frame (by rw [hstage]) rfl ?_ fun _ => ?_) ?_ hans
          hanswers⟩
      · refine h.next hk' hldt (fun c hc => ?_) ?_
        · rwa [hstage] at hc
        · exact hanswers.2.trans h.pid.symm
      · exact meeting_of_enqueue htask h.addr.2.1 h.parentNe hparent hst List.nodup_nil
          List.not_mem_nil (by rw [hstage, hst]) rfl htable
      · change (k'.procTable child).pFlags = _
        rw [htable]
        exact (sameIpc_enqueue _ _ _ h.childNe).flags
      · have hlin : linear s'.k.procTable child m = linear s.k.procTable child m := by
          rw [linear, linear]
          exact congrArg (ldtSegLinear · + m) (hldt child)
        rw [hlin]
        refine readMessage_frame fun a ha => ?_
        exact (hmem a (hchildMm a ha)).trans (replyMessage_kept img s.k 0 (hchildMm a ha))
      · change s.got ++ mmDelivered s.k k' = _
        rw [hgot, hdel]
        rfl
  | _ => cases hpc

/-! ### The receives -/

/-- The process `c` meets `task_mm`. -/
theorem Meeting.taken {c : Pid} {b : Addr} {k' : Machine} (hmeet : Meeting s c b)
    (h : Scene D img parent child m s) (hc : c = parent ∨ c = child)
    (hb : b = img.mmMsg ∨ b = img.forkMsg)
    (hcall : sysSendrec s.k RECEIVE (proc2pid TASK_MM) m c = .ok k') :
    (s.afterReceive s.k k' c m).stage = Function.update s.stage c .served ∧
    (s.afterReceive s.k k' c m).got = s.got ++ [⟨TASK_MM, c, readMessage s.k.mem b⟩] ∧
    (∃ prev, k'.procTable = dequeue s.k.procTable c TASK_MM prev) ∧
    (k'.procTable TASK_MM).Ready ∧ Scene D img parent child m (s.afterReceive s.k k' c m) ∧
    (∀ a, ¬ InMessage (linear s.k.procTable c m) a → k'.mem a = s.k.mem a) ∧
    HasMessage True m (s.afterReceive s.k k' c m) c (readMessage s.k.mem b) := by
  have hapart : Separate (linear s.k.procTable c m) b := by
    rcases hb with rfl | rfl
    · exact (h.bufs c hc).1
    · exact (h.bufs c hc).2
  have hne : c ≠ TASK_MM := h.party_ne (by rw [hmeet.due]; nofun)
  obtain ⟨prev, _, htable, hrecv, hcopy, hmem⟩ := receive_from_task h.flat hmeet.noInt hmeet.sendsTo
    hmeet.msg hapart hcall
  have hldt : ∀ p, (k'.procTable p).ldtData = (s.k.procTable p).ldtData := by
    rw [htable]
    exact fun _ => rfl
  have hstage : (s.afterReceive s.k k' c m).stage = Function.update s.stage c .served := by
    unfold ForkState.afterReceive
    dsimp only
    rw [hrecv, serve_singleton, Function.update_idem]
  refine ⟨hstage, by unfold ForkState.afterReceive; rw [hrecv], ⟨prev, htable⟩, ?_, ?_, hmem,
    .due (by rw [hstage, Function.update_self]) ?_ hmeet.unread fun _ => ?_⟩
  · rw [htable]
    exact ready_dequeue c _ hmeet.task.flags hmeet.task.recvfrom
  · refine h.next (sysSendrec_kReenter hcall).2 hldt (fun x hx => ?_) ?_
    · rw [hstage] at hx
      by_cases hxc : x = c
      · rw [hxc, hmeet.due]
        nofun
      · rwa [Function.update_of_ne hxc] at hx
    · refine congrArg Message.m3i2 (readMessage_frame fun a ha => hmem a fun hca => ?_)
      exact (h.bufs c hc).1 a hca ha
  · change (k'.procTable c).pFlags = 0
    rw [htable]
    exact ((sameIpc_dequeue _ _ hne).ready hmeet.ready).flags
  · change readMessage k'.mem (linear k'.procTable c m) = _
    rw [← hcopy, linear, linear, hldt]

/-- A receive that finds nobody waiting blocks the process. -/
theorem InFork.parks {c : Pid} {l : List Pid} {k' : Machine} (hin : InFork m l s c)
    (hdue : s.stage c = .due) (hm : m ≠ 0) (hno : ¬ SendsTo s.k.procTable TASK_MM c)
    (hcall : sysSendrec s.k RECEIVE (proc2pid TASK_MM) m c = .ok k') :
    (s.afterReceive s.k k' c m).stage = Function.update s.stage c .parked ∧
    (s.afterReceive s.k k' c m).got = s.got ∧
    k'.procTable = park s.k.procTable c (proc2pid TASK_MM) m ∧
    (∀ a, ¬ InMessage (linear s.k.procTable c m) a → k'.mem a = s.k.mem a) ∧
    InFork m l (s.afterReceive s.k k' c m) c := by
  have hslot := hin.slot
  rw [hdue] at hslot
  obtain ⟨hready, hint⟩ := hslot
  obtain ⟨htable, hrecv, hmem⟩ := receive_parks hint hno hcall
  have hstage : (s.afterReceive s.k k' c m).stage = Function.update s.stage c .parked := by
    unfold ForkState.afterReceive
    dsimp only
    rw [hrecv, serve_nil]
  refine ⟨hstage, ?_, htable, hmem, ?_, ?_, hin.unread⟩
  · unfold ForkState.afterReceive
    rw [hrecv, List.append_nil]
  · rw [hstage, Function.update_self]
    change AtStage m (k'.procTable c) .parked
    rw [htable]
    refine ⟨inReceive_park hready hm (.inr ⟨TASK_MM, rfl⟩), ?_, ?_⟩
    · simp [park]
    · simp [park]
  · change SendChain k'.procTable c l
    rw [htable]
    exact hin.queue

/-- The process `c` does not meet it, and blocks. -/
theorem InFork.parked {c : Pid} {l : List Pid} {k' : Machine} (hin : InFork m l s c)
    (h : Scene D img parent child m s) (hc : c = parent ∨ c = child) (hdue : s.stage c = .due)
    (hno : ¬ SendsTo s.k.procTable TASK_MM c)
    (hcall : sysSendrec s.k RECEIVE (proc2pid TASK_MM) m c = .ok k') :
    (s.afterReceive s.k k' c m).stage = Function.update s.stage c .parked ∧
    (s.afterReceive s.k k' c m).got = s.got ∧
    k'.procTable = park s.k.procTable c (proc2pid TASK_MM) m ∧
    (∀ a, ¬ InMessage (linear s.k.procTable c m) a → k'.mem a = s.k.mem a) ∧
    InFork m l (s.afterReceive s.k k' c m) c ∧
    Scene D img parent child m (s.afterReceive s.k k' c m) := by
  obtain ⟨hstage, hgot, htable, hmem, hin'⟩ := hin.parks hdue h.addr.1 hno hcall
  refine ⟨hstage, hgot, htable, hmem, hin', ?_⟩
  refine h.next (sysSendrec_kReenter hcall).2 ?_ (fun x hx => ?_) ?_
  · intro p
    change (k'.procTable p).ldtData = _
    rw [htable]
    rfl
  · by_cases hxc : x = c
    · rw [hxc, hdue]
      nofun
    · rwa [hstage, Function.update_of_ne hxc] at hx
  · exact congrArg Message.m3i2 (readMessage_frame fun a ha => hmem a fun hca =>
      (h.bufs c hc).1 a hca ha)

/-- A process in `fork` that another one's receive has left alone. -/
theorem InFork.other_parked {c x : Pid} {l : List Pid} {k' : Machine} (hin : InFork m l s x)
    (hx : x ≠ c) (hstage : (s.afterReceive s.k k' c m).stage = Function.update s.stage c .parked)
    (htable : k'.procTable = park s.k.procTable c (proc2pid TASK_MM) m) :
    InFork m l (s.afterReceive s.k k' c m) x := by
  refine hin.frame ?_ rfl ?_ (fun hq => ?_) ?_
  · rw [hstage, Function.update_of_ne hx]
  · change SameIpc _ (k'.procTable x)
    rw [htable]
    exact sameIpc_park _ _ _ hx
  · change SendChain k'.procTable x l
    rw [htable]
    exact hq
  · change (k'.procTable x).hasIntMsg = _
    rw [htable]
    rfl

/-- The child keeps its message while the parent blocks. -/
theorem HasMessage.other_parked {c x : Pid} {msg : Message} {k' : Machine}
    (h : HasMessage D m s x msg) (hx : x ≠ c)
    (hown : D → Separate (linear s.k.procTable c m) (linear s.k.procTable x m))
    (hstage : (s.afterReceive s.k k' c m).stage = Function.update s.stage c .parked)
    (htable : k'.procTable = park s.k.procTable c (proc2pid TASK_MM) m)
    (hmem : ∀ a, ¬ InMessage (linear s.k.procTable c m) a → k'.mem a = s.k.mem a) :
    HasMessage D m (s.afterReceive s.k k' c m) x msg := by
  refine h.frame (by rw [hstage, Function.update_of_ne hx]) rfl ?_ fun hD => ?_
  · change (k'.procTable x).pFlags = _
    rw [htable]
    exact (sameIpc_park _ _ _ hx).flags
  · have hlin : linear k'.procTable x m = linear s.k.procTable x m := by
      rw [htable]
      rfl
    change readMessage k'.mem (linear k'.procTable x m) = _
    rw [hlin]
    exact readMessage_frame fun a ha => hmem a fun hc => hown hD a hc ha

theorem ready_park {c : Pid} {k' : Machine} (htask : (s.k.procTable TASK_MM).Ready)
    (hc : c ≠ TASK_MM) (htable : k'.procTable = park s.k.procTable c (proc2pid TASK_MM) m) :
    (k'.procTable TASK_MM).Ready := by
  rw [htable]
  exact (sameIpc_park _ _ _ hc.symm).ready htask

/-- The parent blocks while `task_mm` waits for the child. -/
theorem Meeting.parked {c x : Pid} {b : Addr} {k' : Machine} (hmeet : Meeting s x b) (hx : x ≠ c)
    (hc : c ≠ TASK_MM)
    (hstage : (s.afterReceive s.k k' c m).stage = Function.update s.stage c .parked)
    (htable : k'.procTable = park s.k.procTable c (proc2pid TASK_MM) m) :
    Meeting (s.afterReceive s.k k' c m) x b := by
  have hself : SameIpc (s.k.procTable x) (k'.procTable x) := by
    rw [htable]
    exact sameIpc_park _ _ _ hx
  have htask : SameIpc (s.k.procTable TASK_MM) (k'.procTable TASK_MM) := by
    rw [htable]
    exact sameIpc_park _ _ _ hc.symm
  obtain ⟨l, hnd, hl, hchain⟩ := hmeet.queue
  refine ⟨?_, hself.ready hmeet.ready, ?_, ⟨l, hnd, hl, ?_⟩, htask.inSend hmeet.task,
    htask.sendto.trans hmeet.sendto, htask.msg.trans hmeet.msg, hmeet.unread⟩
  · rw [hstage, Function.update_of_ne hx]
    exact hmeet.due
  · exact (congrArg Process.hasIntMsg (congrFun htable x)).trans hmeet.noInt
  · change SendChain k'.procTable x _
    rw [htable]
    exact hchain

/-- A receive of a process in `fork`. -/
theorem Replying.receive_step {c : Pid} {k' : Machine} (h : Replying D img parent child m n s)
    (hdue : s.stage c = .due)
    (hcall : sysSendrec s.k RECEIVE (proc2pid TASK_MM) m c = .ok k') :
    ∃ n', n' < n ∧ Replying D img parent child m n' (s.afterReceive s.k k' c m) := by
  have haway : s.stage c ≠ .away := by
    rw [hdue]
    nofun
  cases h with
  | born h hpc htask hparent hchild hgot =>
    have hno : ¬ SendsTo s.k.procTable TASK_MM c := fun hs => htask.not_sending hs.1
    rcases h.others c haway with rfl | rfl
    · obtain ⟨hstage, hgot', htable, _, hin, hscene⟩ :=
        hparent.parked h (.inl rfl) hdue hno hcall
      refine ⟨_, ?_, .born hscene hpc (ready_park htask h.parentNe htable) hin
        (hchild.other_parked h.ne.symm hstage htable) (hgot'.trans hgot)⟩
      rw [hstage, Function.update_self, Function.update_of_ne h.ne.symm, hdue]
      simp only [Stage.weight]
      omega
    · obtain ⟨hstage, hgot', htable, _, hin, hscene⟩ :=
        hchild.parked h (.inr rfl) hdue hno hcall
      refine ⟨_, ?_, .born hscene hpc (ready_park htask h.childNe htable)
        (hparent.other_parked h.ne hstage htable) hin (hgot'.trans hgot)⟩
      rw [hstage, Function.update_self, Function.update_of_ne h.ne, hdue]
      simp only [Stage.weight]
      omega
  | childDue h hpc hmeet hparent hgot hmsg =>
    rcases h.others c haway with rfl | rfl
    · have hno : ¬ SendsTo s.k.procTable TASK_MM c := fun hs => h.ne (hs.unique hmeet.sendsTo)
      obtain ⟨hstage, hgot', htable, hmem, hin, hscene⟩ :=
        hparent.parked h (.inl rfl) hdue hno hcall
      have hkept : readMessage k'.mem img.forkMsg = readMessage s.k.mem img.forkMsg :=
        readMessage_frame fun a ha => hmem a fun hc => (h.bufs c (.inl rfl)).2 a hc ha
      refine ⟨_, ?_, .childDue hscene hpc (hmeet.parked h.ne.symm h.parentNe hstage htable) hin
        (hgot'.trans hgot) (hmsg.congr hkept)⟩
      rw [hstage, Function.update_self, hdue]
      simp only [Stage.weight]
      omega
    · obtain ⟨hstage, hgot', ⟨prev, htable⟩, htask, hscene, _, hmessage⟩ :=
        hmeet.taken h (.inr rfl) (.inr rfl) hcall
      have hparentStage : (s.afterReceive s.k k' c m).stage parent = s.stage parent := by
        rw [hstage, Function.update_of_ne h.ne]
      have hparent' : InFork m [] (s.afterReceive s.k k' c m) parent := by
        refine hparent.frame hparentStage rfl ?_ (fun hq => ?_) ?_
        · change SameIpc _ (k'.procTable parent)
          rw [htable]
          exact sameIpc_dequeue _ _ h.parentNe
        · have hqueue : (k'.procTable parent).qSending = (s.k.procTable parent).qSending := by
            rw [htable]
            simp [dequeue, h.ne]
          exact hqueue.trans hq
        · change (k'.procTable parent).hasIntMsg = _
          rw [htable]
          rfl
      refine ⟨_, ?_, .childServed hscene hpc htask hparent' _ (hmessage.weaken fun _ => trivial) ?_
        hmsg⟩
      · rw [hparentStage, hstage, Function.update_self]
        simp only [Stage.weight]
        omega
      · rw [hgot', hgot]
        rfl
  | childServed h hpc htask hparent toChild hchild hgot hans =>
    rcases h.others c haway with rfl | rfl
    · have hno : ¬ SendsTo s.k.procTable TASK_MM c := fun hs => htask.not_sending hs.1
      obtain ⟨hstage, hgot', htable, hmem, hin, hscene⟩ :=
        hparent.parked h (.inl rfl) hdue hno hcall
      refine ⟨_, ?_, .childServed hscene hpc (ready_park htask h.parentNe htable) hin toChild
        (hchild.other_parked h.ne.symm h.own hstage htable hmem) (hgot'.trans hgot) hans⟩
      rw [hstage, Function.update_self, Function.update_of_ne h.ne.symm, hdue]
      simp only [Stage.weight]
      omega
    · exact absurd hdue hchild.not_due
  | parentDue h hpc hmeet toChild hchild hgot hans hmsg =>
    rcases h.others c haway with rfl | rfl
    · obtain ⟨hstage, hgot', ⟨prev, htable⟩, htask, hscene, hmem, hmessage⟩ :=
        hmeet.taken h (.inl rfl) (.inl rfl) hcall
      have hparentStage : (s.afterReceive s.k k' c m).stage c = .served := by
        rw [hstage, Function.update_self]
      have hchildStage : (s.afterReceive s.k k' c m).stage child = s.stage child := by
        rw [hstage, Function.update_of_ne h.ne.symm]
      refine ⟨_, ?_, .bothServed hscene hpc htask toChild _
        (hchild.frame hchildStage rfl ?_ fun hD => ?_) hmessage (.inl hparentStage) ?_ hans hmsg⟩
      · rw [hparentStage, hchildStage]
        simp only [Stage.weight]
        omega
      · change (k'.procTable child).pFlags = _
        rw [htable]
        exact (sameIpc_dequeue _ _ h.childNe).flags
      · have hlin : linear k'.procTable child m = linear s.k.procTable child m := by
          rw [htable]
          rfl
        change readMessage k'.mem (linear k'.procTable child m) = _
        rw [hlin]
        exact readMessage_frame fun a ha => hmem a fun hc => h.own hD a hc ha
      · rw [hgot', hgot]
        rfl
    · exact absurd hdue hchild.not_due
  | bothServed h hpc htask toChild toParent hchild hparent hopen hgot hans hans' =>
    rcases h.others c haway with rfl | rfl
    · exact absurd hdue hparent.not_due
    · exact absurd hdue hchild.not_due

/-! ### The looks at the messages -/

/-- The process `c` reads its message. -/
theorem HasMessage.afterRead_self {c : Pid} {msg : Message} (h : HasMessage D m s c msg)
    (hserved : s.stage c = .served) : HasMessage D m (s.afterRead s.k c m) c msg := by
  cases h with
  | due hstage hready hunread hfound =>
    refine .read (Function.update_self ..) _ ?_ hfound
    change Function.update s.read c _ c = _
    rw [Function.update_self, hunread]
    rfl
  | read hstage =>
    rw [hstage] at hserved
    cases hserved

theorem HasMessage.afterRead_other {c x : Pid} {msg : Message} (h : HasMessage D m s x msg)
    (hx : x ≠ c) : HasMessage D m (s.afterRead s.k c m) x msg :=
  h.frame (Function.update_of_ne hx _ _) (Function.update_of_ne hx _ _) rfl fun _ => rfl

theorem Scene.afterRead (h : Scene D img parent child m s) {c : Pid} (hc : s.stage c = .served) :
    Scene D img parent child m (s.afterRead s.k c m) := by
  refine h.next h.kReenter (fun _ => rfl) (fun x hx => ?_) rfl
  by_cases hxc : x = c
  · rw [hxc, hc]
    nofun
  · change Function.update s.stage c .away x ≠ .away at hx
    rwa [Function.update_of_ne hxc] at hx

theorem InFork.not_served {c : Pid} {l : List Pid} (h : InFork m l s c) :
    s.stage c ≠ .served := by
  intro hc
  have hslot := h.slot
  rw [hc] at hslot
  exact hslot

/-- While `task_mm` waits for the parent or has yet to send to it, only the child can
    have a message to read. -/
theorem Replying.read_step {c : Pid} (h : Replying D img parent child m n s)
    (hserved : s.stage c = .served) :
    ForkEnds D parent child (s.afterRead s.k c m) ∨
      ∃ n', n' < n ∧ Replying D img parent child m n' (s.afterRead s.k c m) := by
  have haway : s.stage c ≠ .away := by
    rw [hserved]
    nofun
  have hself : (s.afterRead s.k c m).stage c = .away := Function.update_self ..
  have hother : ∀ x, x ≠ c → (s.afterRead s.k c m).stage x = s.stage x :=
    fun x hx => Function.update_of_ne hx _ _
  cases h with
  | born h hpc htask hparent hchild hgot =>
    rcases h.others c haway with rfl | rfl
    · exact absurd hserved hparent.not_served
    · exact absurd hserved hchild.not_served
  | childDue h hpc hmeet hparent hgot hmsg =>
    rcases h.others c haway with rfl | rfl
    · exact absurd hserved hparent.not_served
    · rw [hmeet.due] at hserved
      cases hserved
  | childServed h hpc htask hparent toChild hchild hgot hans =>
    right
    rcases h.others c haway with rfl | rfl
    · exact absurd hserved hparent.not_served
    · refine ⟨_, ?_, .childServed (h.afterRead hserved) hpc htask
        (hparent.frame (hother _ h.ne) (Function.update_of_ne h.ne _ _) ⟨rfl, rfl, rfl, rfl⟩
          (fun hq => hq) rfl) toChild (hchild.afterRead_self hserved) hgot hans⟩
      rw [hself, hother _ h.ne, hserved]
      simp only [Stage.weight]
      omega
  | parentDue h hpc hmeet toChild hchild hgot hans hmsg =>
    right
    rcases h.others c haway with rfl | rfl
    · rw [hmeet.due] at hserved
      cases hserved
    · refine ⟨_, ?_, .parentDue (h.afterRead hserved) hpc ⟨?_, hmeet.ready, hmeet.noInt,
        hmeet.queue, hmeet.task, hmeet.sendto, hmeet.msg, ?_⟩ toChild
        (hchild.afterRead_self hserved) hgot hans hmsg⟩
      · rw [hself, hserved]
        simp only [Stage.weight]
        omega
      · rw [hother _ h.ne]
        exact hmeet.due
      · exact (Function.update_of_ne h.ne _ _).trans hmeet.unread
  | bothServed h hpc htask toChild toParent hchild hparent hopen hgot hans hans' =>
    have hchild' : HasMessage D m (s.afterRead s.k c m) child toChild := by
      by_cases hc : child = c
      · rw [← hc] at hserved ⊢
        exact hchild.afterRead_self hserved
      · exact hchild.afterRead_other hc
    have hparent' : HasMessage True m (s.afterRead s.k c m) parent toParent := by
      by_cases hc : parent = c
      · rw [← hc] at hserved ⊢
        exact hparent.afterRead_self hserved
      · exact hparent.afterRead_other hc
    by_cases hopen' : (s.afterRead s.k c m).stage parent = .served ∨
        (s.afterRead s.k c m).stage child = .served
    · refine .inr ⟨_, ?_, .bothServed (h.afterRead hserved) hpc htask toChild toParent hchild'
        hparent' hopen' hgot hans hans'⟩
      rcases h.others c haway with rfl | rfl
      · rw [hself, hother _ h.ne.symm, hserved]
        simp only [Stage.weight]
        omega
      · rw [hself, hother _ h.ne, hserved]
        simp only [Stage.weight]
        omega
    · left
      obtain ⟨hno, hno'⟩ := not_or.mp hopen'
      cases hparent' with
      | due hc => exact absurd hc hno
      | read hparentAway r hr hown =>
        cases hchild' with
        | due hc => exact absurd hc hno'
        | read hchildAway r' hr' hown' =>
          obtain rfl := hown trivial
          exact ⟨hpc, htask.flags, ⟨hparentAway, hchildAway⟩, toChild, r', r, hgot, hr', hown', hr,
            hans, hans'⟩

/-- A step of `task_mm`. -/
theorem Replying.task_step {eax : BitVec 32} {k' : Machine} {pc' : MmPc}
    (h : Replying D img parent child m n s) (hno : s.pc ≠ .receive)
    (hready : (s.k.procTable TASK_MM).pFlags = 0)
    (hstep : mmStep img eax s.k s.pc = .ok (k', pc')) :
    ∃ n', n' < n ∧ Replying D img parent child m n' (s.afterTask parent s.k k' pc') := by
  cases h with
  | born h hpc htask hparent hchild hgot =>
    rw [hpc] at hstep
    exact forkSend_step h htask hparent hchild hgot hstep
  | childDue h hpc hmeet hparent hgot hmsg =>
    rw [hmeet.task.flags] at hready
    exact absurd hready (by decide)
  | childServed h hpc htask hparent toChild hchild hgot hans =>
    rw [hpc] at hstep
    exact reply_step h htask hparent hchild hgot hans hstep
  | parentDue h hpc => exact absurd hpc hno
  | bothServed h hpc => exact absurd hpc hno

theorem Replying.step {s' : ForkState} (h : Replying D img parent child m n s)
    (hs : ForkStep img parent m s s') :
    ForkEnds D parent child s' ∨ ∃ n', n' < n ∧ Replying D img parent child m n' s' := by
  cases hs with
  | task eax hq hpc hready hstep => exact .inr ((h.on hq).task_step hpc hready hstep)
  | receive c hq hdue hready hcall => exact .inr ((h.on hq).receive_step hdue hcall)
  | read c hq hserved hready => exact (h.on hq).read_step hserved

end Phases

end SimpleOs
