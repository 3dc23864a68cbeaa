import SimpleOs.Kernel.Delivery
import SimpleOs.Mm.Queues

/-!
# The memory manager and its clients

The processes that call `fork`, `exit`, `wait` and `execl` (syscall.c:31-74),
each a `send_recv(BOTH, TASK_MM, &msg)`, together with `task_mm`. At each step
one ready party makes its next call (a step of `task_mm` is one of `mmStep`);
what the others may have done since the last call is in `Quiet`.

Unlike in `MmSysStep`, the position of every process is known: whether it is
between its two calls, and whether `do_execl` has set it to the entry point of a
new image. A child continues where its parent does. The observer writes down
the requests, the EXIT and EXEC requests that `task_mm` has handled, what the
calls of `wait` have returned, and the slots that have been freed.
-/

namespace SimpleOs

open ByteMem

/-! ## The state -/

/-- Where a process continues when it runs. -/
inductive Position where
  /-- In its own code; the next call is a send. -/
  | running
  /-- Between the two calls of `send_recv`; the next call is the receive. -/
  | awaiting
  /-- At the entry point that `do_execl` has set, or behind it. -/
  | entry
  deriving DecidableEq

/-- An EXIT request that has been handled. -/
structure ExitRecord where
  parent : ℤ
  child : Pid
  status : BitVec 32
  deriving DecidableEq

/-- What a call of `wait` has returned, and the flags of its caller then. -/
structure WaitRecord where
  parent : Pid
  pid : BitVec 32
  status : BitVec 32
  flags : BitVec 32
  deriving DecidableEq

/-- The machine, the positions of the parties, and what has happened. -/
structure MmWorld where
  k : Machine
  pc : MmPc
  pos : Pid → Position
  /-- The message of the last `send_recv` of each process. -/
  buf : Pid → Addr
  /-- What it has passed to the send. -/
  request : Pid → Message
  execs : List Pid
  /-- The callers whose receive has taken the reply to an EXEC. -/
  consumed : List Pid
  exits : List ExitRecord
  results : List WaitRecord
  freed : List (Pid × BitVec 32)

/-- The process is inside `send_recv`. -/
def MmWorld.InCall (s : MmWorld) (p : Pid) : Prop :=
  s.pos p = .awaiting ∨ (s.k.procTable p).pFlags &&& RECEIVING ≠ 0

instance MmWorld.decidableInCall (s : MmWorld) (p : Pid) : Decidable (s.InCall p) :=
  inferInstanceAs (Decidable (_ ∨ _))

/-- The address lies in one of the messages of `task_mm`. -/
def InTask (img : MmImage) (a : Addr) : Prop :=
  InMessage img.mmMsg a ∨ InMessage img.forkMsg a ∨ InMessage img.cleanupMsg a ∨
    InMessage img.waitMsg a

/-- What has not happened since the last call: no system call, no write to the
    messages of `task_mm` or of a process blocked in a send. The messages of the
    processes inside `send_recv` are not in the memory of `task_mm`. -/
structure Quiet (img : MmImage) (s : MmWorld) (k : Machine) : Prop where
  table : k.procTable = s.k.procTable
  kReenter : k.kReenter = s.k.kReenter
  mem : ∀ a, InTask img a ∨ InBlockedBuffer s.k.procTable a → k.mem a = s.k.mem a
  outside : ∀ p, p ≠ TASK_MM → s.InCall p →
    ∀ a, InMessage (linear s.k.procTable p (s.buf p)) a → ¬ InTask img a

theorem Quiet.outside_inCall {img : MmImage} {s : MmWorld} {k : Machine} (h : Quiet img s k)
    {p : Pid} (hp : p ≠ TASK_MM) (hin : ({ s with k := k } : MmWorld).InCall p) :
    ∀ a, InMessage (linear k.procTable p (s.buf p)) a → ¬ InTask img a := by
  have hin' : s.InCall p := by
    rw [MmWorld.InCall] at hin ⊢
    rw [← h.table]
    exact hin
  rw [h.table]
  exact h.outside p hp hin'

/-! ## What the observer sees -/

/-- The receives that a send of `task_mm` has completed. -/
def mmDelivered (k k' : Machine) : List Event :=
  ((List.finRange 35).filter fun d => (k.procTable d).pFlags &&& RECEIVING ≠ 0 ∧
    (k'.procTable d).pFlags &&& RECEIVING = 0).map fun d =>
      ⟨TASK_MM, d, readMessage k'.mem (linear k.procTable d (k.procTable d).msg)⟩

/-- What a send of `task_mm` completes. -/
theorem mmDelivered_eq {k k₁ k' : Machine} {d : Pid} {m : Addr}
    (htask : (k.procTable TASK_MM).pFlags = 0) (hk₁ : k₁.procTable = k.procTable)
    (he : SendEffect k₁ TASK_MM d m k') :
    (Accepts k.procTable d TASK_MM ∧ mmDelivered k k' =
      [⟨TASK_MM, d, readMessage k'.mem (linear k.procTable d (k.procTable d).msg)⟩]) ∨
    (¬ Accepts k.procTable d TASK_MM ∧ mmDelivered k k' = []) := by
  cases he with
  | delivered hacc _ htable _ =>
    rw [hk₁] at hacc htable
    refine .inl ⟨hacc, ?_⟩
    have hone : (List.finRange 35).filter (fun x => (k.procTable x).pFlags &&& RECEIVING ≠ 0 ∧
        (k'.procTable x).pFlags &&& RECEIVING = 0) = [d] := by
      refine filter_slots_eq_singleton fun x => ?_
      rw [htable]
      constructor
      · intro hx
        by_contra hxd
        have hflags : (deliver k.procTable d x).pFlags = (k.procTable x).pFlags := by
          simp [deliver, hxd]
        rw [hflags] at hx
        exact hx.1 hx.2
      · intro hx
        subst hx
        refine ⟨hacc.1, ?_⟩
        by_contra hr
        have hbit := (receiving_iff (p := deliver k.procTable x x)).mp hr
        simp [deliver] at hbit
    rw [mmDelivered, hone]
    rfl
  | queued hacc tail _ htable _ =>
    rw [hk₁] at hacc htable
    refine .inr ⟨hacc, ?_⟩
    have hnone : (List.finRange 35).filter (fun x => (k.procTable x).pFlags &&& RECEIVING ≠ 0 ∧
        (k'.procTable x).pFlags &&& RECEIVING = 0) = [] := by
      refine filter_slots_eq_nil fun x hx => ?_
      rw [htable] at hx
      by_cases hxm : x = TASK_MM
      · rw [hxm, htask] at hx
        exact hx.1 (by decide)
      · have hflags : (enqueue k.procTable TASK_MM d m tail x).pFlags = (k.procTable x).pFlags := by
          simp [enqueue, hxm]
        rw [hflags] at hx
        exact hx.1 hx.2
    rw [mmDelivered, hnone]
    rfl

/-- The message that `task_mm` has taken from the buffer of `c` is in `mm_msg`. -/
theorem readMessage_taken {img : MmImage} {k k' : Machine} {c : Pid} {b : Addr}
    (hlin : linear k.procTable TASK_MM img.mmMsg = img.mmMsg)
    (hapart : Separate (linear k.procTable c b) img.mmMsg)
    (hmem : k'.mem = pAsmMemcpy (stampSource (clearMmMsg img k) TASK_MM img.mmMsg).mem
      (linear (clearMmMsg img k).procTable TASK_MM img.mmMsg)
      (linear (clearMmMsg img k).procTable c b) sizeofMessage) :
    readMessage k'.mem img.mmMsg = readMessage k.mem (linear k.procTable c b) := by
  have hdest : linear (clearMmMsg img k).procTable TASK_MM img.mmMsg = img.mmMsg := hlin
  rw [hmem, hdest]
  refine (readMessage_copy hapart.symm.noForwardOverlap).trans (readMessage_frame fun a ha => ?_)
  have hstamp : (stampSource (clearMmMsg img k) TASK_MM img.mmMsg).mem a =
      (clearMmMsg img k).mem a := by
    refine stampSource_kept ?_
    rw [hdest]
    exact hapart a ha
  exact hstamp.trans (fill_out (hapart a ha))

/-- The calls of `wait` among the completed receives. -/
def MmWorld.waitResults (s : MmWorld) (k' : Machine) (l : List Event) : List WaitRecord :=
  (l.filter fun e => (s.request e.dst).type = WAIT).map fun e =>
    ⟨e.dst, e.msg.pid, e.msg.status, (k'.procTable e.dst).pFlags⟩

/-- The process `c` has sent the request at `m`. -/
def MmWorld.afterAsk (s : MmWorld) (k k' : Machine) (c : Pid) (m : Addr) : MmWorld :=
  { s with
    k := k'
    pos := Function.update s.pos c .awaiting
    buf := Function.update s.buf c m
    request := Function.update s.request c (passed k c m) }

/-- The process `c` has called its receive. -/
def MmWorld.afterAwait (s : MmWorld) (k k' : Machine) (c : Pid) : MmWorld :=
  { s with
    k := k'
    pos := Function.update s.pos c .running
    results := s.results ++ s.waitResults k' (receiveReceived k k' c (s.buf c)) }

/-- `task_mm` has handled the request in `mm_msg`. The child continues where its
    parent does; the caller of EXEC continues at the entry point. -/
def MmWorld.afterDispatch (img : MmImage) (s : MmWorld) (k k' : Machine) (pc' : MmPc) : MmWorld :=
  let s' := { s with k := k', pc := pc' }
  match slot (mmSource img k) with
  | .error _ => s'
  | .ok c =>
    if mmType img k = FORK then
      match pc' with
      | .forkSend _ child =>
        { s' with
          pos := Function.update s.pos child (s.pos c)
          buf := Function.update s.buf child (s.buf c)
          request := Function.update s.request child (s.request c) }
      | _ => s'
    else if mmType img k = EXIT then
      { s' with exits := s.exits ++ [⟨(k.procTable c).pParent, c, (s.request c).status⟩] }
    else if mmType img k = EXEC then
      { s' with
        pos := Function.update s.pos c .entry
        execs := s.execs ++ [c] }
    else s'

section Dispatch

variable {img : MmImage} {s : MmWorld} {k k' : Machine} {c : Pid} {pc' : MmPc}

theorem MmWorld.afterDispatch_fork {src : ℤ} {child : Pid} (hsrc : mmSource img k = proc2pid c)
    (htype : mmType img k = FORK) :
    s.afterDispatch img k k' (.forkSend src child) =
      { s with
        k := k'
        pc := .forkSend src child
        pos := Function.update s.pos child (s.pos c)
        buf := Function.update s.buf child (s.buf c)
        request := Function.update s.request child (s.request c) } := by
  unfold MmWorld.afterDispatch
  rw [hsrc, slot_proc2pid]
  dsimp only
  rw [if_pos htype]

theorem MmWorld.afterDispatch_exit (hsrc : mmSource img k = proc2pid c)
    (htype : mmType img k = EXIT) :
    s.afterDispatch img k k' pc' =
      { s with
        k := k'
        pc := pc'
        exits := s.exits ++ [⟨(k.procTable c).pParent, c, (s.request c).status⟩] } := by
  have hfork : EXIT ≠ FORK := by decide
  unfold MmWorld.afterDispatch
  rw [hsrc, slot_proc2pid, htype]
  dsimp only
  rw [if_neg hfork, if_pos rfl]

theorem MmWorld.afterDispatch_exec (hsrc : mmSource img k = proc2pid c)
    (htype : mmType img k = EXEC) :
    s.afterDispatch img k k' pc' =
      { s with
        k := k'
        pc := pc'
        pos := Function.update s.pos c .entry
        execs := s.execs ++ [c] } := by
  have hfork : EXEC ≠ FORK := by decide
  have hexit : EXEC ≠ EXIT := by decide
  unfold MmWorld.afterDispatch
  rw [hsrc, slot_proc2pid, htype]
  dsimp only
  rw [if_neg hfork, if_neg hexit, if_pos rfl]

/-- `do_fork` has found no slot. -/
theorem MmWorld.afterDispatch_noSlot {src : ℤ} {retval : BitVec 32} (htype : mmType img k = FORK) :
    s.afterDispatch img k k' (.reply src retval) =
      { s with k := k', pc := .reply src retval } := by
  unfold MmWorld.afterDispatch
  cases slot (mmSource img k) with
  | error _ => rfl
  | ok c =>
    dsimp only
    rw [if_pos htype]

theorem MmWorld.afterDispatch_wait (htype : mmType img k = WAIT) :
    s.afterDispatch img k k' pc' = { s with k := k', pc := pc' } := by
  have hfork : WAIT ≠ FORK := by decide
  have hexit : WAIT ≠ EXIT := by decide
  have hexec : WAIT ≠ EXEC := by decide
  unfold MmWorld.afterDispatch
  cases slot (mmSource img k) with
  | error _ => rfl
  | ok c =>
    rw [htype]
    dsimp only
    rw [if_neg hfork, if_neg hexit, if_neg hexec]

end Dispatch

/-- `task_mm` has sent a message. -/
def MmWorld.afterSend (s : MmWorld) (k k' : Machine) (pc' : MmPc) : MmWorld :=
  { s with
    k := k'
    pc := pc'
    consumed := s.consumed ++
      ((mmDelivered k k').map Event.dst).filter fun p => s.pos p = .entry
    results := s.results ++ s.waitResults k' (mmDelivered k k') }

/-- `task_mm` has made a step. -/
def MmWorld.afterTask (img : MmImage) (s : MmWorld) (k k' : Machine) (pc' : MmPc) : MmWorld :=
  match s.pc with
  | .receive => { s with k := k', pc := pc' }
  | .dispatch => s.afterDispatch img k k' pc'
  | .forkSend _ _ => s.afterSend k k' pc'
  | .cleanupSend _ _ => s.afterSend k k' pc'
  | .cleanupFree proc _ =>
    { s with k := k', pc := pc', freed := s.freed ++ [(proc, (k'.procTable proc).pFlags)] }
  | .exitScan _ _ => { s with k := k', pc := pc' }
  | .waitNone _ => s.afterSend k k' pc'
  | .reply _ _ => s.afterSend k k' pc'

/-! ## The steps -/

/-- One call of one ready party. No call changes the message of a process blocked
    in a send; `task_mm` makes its steps in states that meet `C`. -/
inductive WorldStep (img : MmImage) (C : MmWorld → Machine → Prop) (s : MmWorld) : MmWorld → Prop
  | ask {k k' : Machine} (c : Pid) (m : Addr) (hq : Quiet img s k) (hc : c ≠ TASK_MM)
      (hready : (k.procTable c).pFlags = 0) (hpos : s.pos c ≠ .awaiting) (hm : m ≠ 0)
      (hown : ∀ a, InMessage (linear k.procTable c m) a → ¬ InTask img a)
      (hkept : ∀ a, InBlockedBuffer k.procTable a → k'.mem a = k.mem a)
      (h : sysSendrec k SEND (proc2pid TASK_MM) m c = .ok k') :
      WorldStep img C s (s.afterAsk k k' c m)
  | await {k k' : Machine} (c : Pid) (hq : Quiet img s k) (hc : c ≠ TASK_MM)
      (hready : (k.procTable c).pFlags = 0) (hpos : s.pos c = .awaiting)
      (hkept : ∀ a, InBlockedBuffer k.procTable a → k'.mem a = k.mem a)
      (h : sysSendrec k RECEIVE (proc2pid TASK_MM) (s.buf c) c = .ok k') :
      WorldStep img C s (s.afterAwait k k' c)
  | task {k k' : Machine} {pc' : MmPc} (eax : BitVec 32) (hq : Quiet img s k) (hC : C s k)
      (hready : (k.procTable TASK_MM).pFlags = 0)
      (hkept : ∀ a, InBlockedBuffer k.procTable a → k'.mem a = k.mem a)
      (h : mmStep img eax k s.pc = .ok (k', pc')) :
      WorldStep img C s (s.afterTask img k k' pc')

/-- Nobody is blocked, `task_mm` is at the start of its loop, and nothing has
    happened yet. -/
structure WorldStart (img : MmImage) (s : MmWorld) : Prop where
  quiescent : Quiescent s.k.procTable
  kReenter : s.k.kReenter = 0
  task : (s.k.procTable TASK_MM).pFlags = 0
  pc : s.pc = .receive
  pos : s.pos = fun _ => .running
  execs : s.execs = []
  consumed : s.consumed = []
  exits : s.exits = []
  results : s.results = []
  freed : s.freed = []

/-! ## Concrete runs

The steps as functions, for runs in which nothing happens between the calls. -/

/-- The send of `c`, if it returns. -/
def MmWorld.ask (s : MmWorld) (c : Pid) (m : Addr) : MmWorld :=
  match sysSendrec s.k SEND (proc2pid TASK_MM) m c with
  | .ok k' => s.afterAsk s.k k' c m
  | .error _ => s

/-- The receive of `c`, if it returns. -/
def MmWorld.await (s : MmWorld) (c : Pid) : MmWorld :=
  match sysSendrec s.k RECEIVE (proc2pid TASK_MM) (s.buf c) c with
  | .ok k' => s.afterAwait s.k k' c
  | .error _ => s

/-- The step of `task_mm`, if it returns. -/
def MmWorld.task (img : MmImage) (s : MmWorld) : MmWorld :=
  match mmStep img 0 s.k s.pc with
  | .ok (k', pc') => s.afterTask img s.k k' pc'
  | .error _ => s

/-- The booted machine with a message of the given type at `0x1000`, which the
    native processes share. -/
def bootWorld (type : Byte) : MmWorld :=
  ⟨requestMachine type, .receive, fun _ => .running, fun _ => 0x1000,
    fun _ => readMessage (fun _ => 0) 0, [], [], [], [], []⟩

theorem bootWorld_start (type : Byte) : WorldStart sampleMmImage (bootWorld type) :=
  ⟨initProc_quiescent sampleImage, rfl, rfl, rfl, rfl, rfl, rfl, rfl, rfl, rfl⟩

/-- The message at `0x1000` is not in the memory of `task_mm`. -/
theorem sampleMessage_apart {la a : Addr} (hla : la = 0x1000) (h : InMessage la a) :
    ¬ InTask sampleMmImage a := by
  subst hla
  intro hin
  rcases hin with hin | hin | hin | hin
  · exact Apart.not_inBlock (by decide) h hin
  · exact Apart.not_inBlock (by decide) h hin
  · exact Apart.not_inBlock (by decide) h hin
  · exact Apart.not_inBlock (by decide) h hin

theorem Quiet.refl {s : MmWorld}
    (h : ∀ p, p ≠ TASK_MM → s.InCall p → linear s.k.procTable p (s.buf p) = 0x1000) :
    Quiet sampleMmImage s s.k :=
  ⟨rfl, rfl, fun _ _ => rfl, fun p hp hin _ ha => sampleMessage_apart (h p hp hin) ha⟩

theorem kept_of_no_sender {t : ProcTable} (h : ∀ p, ¬ Sending (t p)) {mem mem' : Mem} :
    ∀ a, InBlockedBuffer t a → mem' a = mem a :=
  fun _ ⟨p, hp, _⟩ => absurd hp (h p)

end SimpleOs
