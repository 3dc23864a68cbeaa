import SimpleOs.Kernel.Progress

/-!
# Runs of IPC calls

Two transition systems over the machine. In `IpcStep` a ready process calls
`msg_send` or `msg_receive`; in `SysStep` it makes the system call. Between the
calls the rest of the machine may change in any way that leaves the process
table alone (the processes compute, the clock moves `ready_process`). A call
that panics or never returns has no step, so a run ends there.

* `ipcRun_representation`: the queues and the shapes of the processes.
* `ipcRun_deadlock_exact`: `deadlock` ends and is exact; there is no cycle.
* `ipcRun_no_missed_rendezvous`: no sender sleeps next to its receiver.
* `sysRun_assertions_valid`: no assertion fails.
-/

namespace SimpleOs

open ByteMem Transition Intrusive

/-! ## The two systems -/

/-- One call of `msg_send` or `msg_receive` by a ready process, or anything that
    leaves the process table alone. -/
inductive IpcStep (k : Machine) : Machine → Prop
  | send {k' : Machine} (s d : Pid) (m : Addr) (hs : (k.procTable s).pFlags = 0) (hsd : s ≠ d)
      (hm : m ≠ 0) (h : msgSend k s (proc2pid d) m = .ok k') : IpcStep k k'
  | receive {k' : Machine} (w : Pid) (src : ℤ) (m : Addr) (hw : (k.procTable w).pFlags = 0)
      (hsrc : src = ANY ∨ ∃ f : Pid, f ≠ w ∧ src = proc2pid f) (hm : m ≠ 0)
      (h : msgReceive k w src m = .ok k') : IpcStep k k'
  | other {k' : Machine} (h : k'.procTable = k.procTable) : IpcStep k k'

/-- One valid system call of a ready process, or anything that leaves the
    process table and the nesting depth of interrupts alone. -/
inductive SysStep (k : Machine) : Machine → Prop
  | call {k' : Machine} (p : Pid) (function srcDest : ℤ) (m : Addr)
      (hp : (k.procTable p).pFlags = 0) (hcall : ValidCall p function srcDest) (hm : m ≠ 0)
      (h : sysSendrec k function srcDest m p = .ok k') : SysStep k k'
  | other {k' : Machine} (h : k'.procTable = k.procTable) (hk : k'.kReenter = k.kReenter) :
      SysStep k k'

/-- The machine when `init_proc` is done (start.c:548-552): the processes are
    ready, and memory holds whatever the loader left there. -/
def Booted (img : Image) (k : Machine) : Prop := k.procTable = initProc img

/-! ## The invariant over whole runs -/

theorem IpcInv.step {k k' : Machine} (hI : IpcInv k.procTable) (h : IpcStep k k') :
    IpcInv k'.procTable := by
  cases h with
  | send s d m hs hsd hm h =>
    obtain ⟨d', hd', _, hdead, hout⟩ := msgSend_outcome h
    obtain rfl := proc2pid_inj.mp hd'
    exact hout.ipcInv hI hs hsd hm hdead
  | receive w src m hw _ hm h => exact (msgReceive_outcome h).2.ipcInv hI hw hm
  | other h => rw [h]; exact hI

theorem IpcInv.sysStep {k k' : Machine} (hI : IpcInv k.procTable) (h : SysStep k k') :
    IpcInv k'.procTable := by
  cases h with
  | call p function srcDest m hp _ hm h =>
    rcases sysSendrec_outcome h with ⟨d, _, _, hpd, hdead, hout⟩ | ⟨_, _, hout⟩
    · exact hout.ipcInv hI hp hpd hm hdead
    · exact hout.ipcInv hI hp hm
  | other h _ => rw [h]; exact hI

theorem SysStep.kReenter {k k' : Machine} (h : SysStep k k') : k'.kReenter = k.kReenter := by
  cases h with
  | call p function srcDest m _ _ _ h =>
    rcases sysSendrec_outcome h with ⟨d, _, _, _, _, hout⟩ | ⟨_, _, hout⟩
    · cases hout <;> rfl
    · cases hout <;> rfl
  | other _ hk => exact hk

theorem ipcRun_inv {init : Machine → Prop} (h0 : ∀ k, init k → Quiescent k.procTable)
    {k : Machine} (h : Reachable init IpcStep k) : IpcInv k.procTable :=
  h.invariant (I := fun k => IpcInv k.procTable) (fun k hk => (h0 k hk).ipcInv)
    fun _ _ hI hs => hI.step hs

theorem sysRun_inv {init : Machine → Prop}
    (h0 : ∀ k, init k → Quiescent k.procTable ∧ k.kReenter = 0) {k : Machine}
    (h : Reachable init SysStep k) : IpcInv k.procTable ∧ k.kReenter = 0 :=
  h.invariant (I := fun k => IpcInv k.procTable ∧ k.kReenter = 0)
    (fun k hk => ⟨(h0 k hk).1.ipcInv, (h0 k hk).2⟩)
    fun _ _ hI hs => ⟨hI.1.sysStep hs, hs.kReenter.trans hI.2⟩

theorem Booted.quiescent {img : Image} {k : Machine} (h : Booted img k) :
    Quiescent k.procTable := by
  rw [Booted] at h
  rw [h]
  exact initProc_quiescent img

/-- A booted machine with nothing in memory. -/
def bootMachine (img : Image) : Machine where
  procTable := initProc img
  readyProcess := 0
  kReenter := 0
  mem := fun _ => 0
  memoryUsed := 0
  mmStart := 0x1000000
  ticks := 0

theorem bootMachine_booted (img : Image) : Booted img (bootMachine img) := rfl

/-! ## The representation invariant -/

/-- `s` is on the chain `d.q_sending, next_sending, …`. -/
def OnChain (t : ProcTable) (d s : Pid) : Prop :=
  ∃ l, Linked (links t) (t d).qSending l ∧ s ∈ l

/-- One of three, and no other. -/
def ExactlyOne (a b c : Prop) : Prop := (a ∧ ¬ b ∧ ¬ c) ∨ (¬ a ∧ b ∧ ¬ c) ∨ (¬ a ∧ ¬ b ∧ c)

/-- The queues, the links and the fields of the processes agree. -/
structure Representation (t : ProcTable) : Prop where
  /-- A chain is finite and without repetition, and holds the processes that
      are sending to its owner. -/
  chain : ∀ d, ∃ l, Linked (links t) (t d).qSending l ∧ l.Nodup ∧
    ∀ s, s ∈ l ↔ (t s).pFlags = SENDING ∧ (t s).pSendto = proc2pid d
  once : ∀ s d d', OnChain t d s → OnChain t d' s → d = d'
  off : ∀ s, (∀ d, ¬ OnChain t d s) → (t s).nextSending = none
  shape : ∀ p, (t p).pFlags ≠ FREE_SLOT →
    ExactlyOne (t p).Ready (t p).InSend (t p).InReceive

theorem Process.Shaped.exactlyOne {p : Process} (h : p.Shaped) (hp : p.pFlags ≠ FREE_SLOT) :
    ExactlyOne p.Ready p.InSend p.InReceive := by
  have h01 : (0 : BitVec 32) ≠ SENDING := by decide
  have h02 : (0 : BitVec 32) ≠ RECEIVING := by decide
  have h12 : SENDING ≠ RECEIVING := by decide
  rcases h with h | h | h | h
  · exact absurd h hp
  · exact .inl ⟨h, fun h' => h01 (h.flags.symm.trans h'.flags),
      fun h' => h02 (h.flags.symm.trans h'.flags)⟩
  · exact .inr (.inl ⟨fun h' => h01 (h'.flags.symm.trans h.flags), h,
      fun h' => h12 (h.flags.symm.trans h'.flags)⟩)
  · exact .inr (.inr ⟨fun h' => h02 (h'.flags.symm.trans h.flags),
      fun h' => h12 (h'.flags.symm.trans h.flags), h⟩)

theorem IpcInv.sendsTo_iff {t : ProcTable} (hI : IpcInv t) {s d : Pid} :
    SendsTo t s d ↔ (t s).pFlags = SENDING ∧ (t s).pSendto = proc2pid d := by
  constructor
  · intro h
    exact ⟨((hI.shape s).inSend h.1).flags, h.2⟩
  · intro h
    refine ⟨?_, h.2⟩
    rw [Sending, h.1]
    decide

theorem IsQueue.onChain {t : ProcTable} {d s : Pid} {l : List Pid} (h : IsQueue t d l) :
    OnChain t d s ↔ SendsTo t s d := by
  rw [← h.mem_iff]
  constructor
  · intro hc
    obtain ⟨l', hl', hs⟩ := hc
    rwa [h.linked.unique hl']
  · intro hs
    exact ⟨l, h.linked, hs⟩

theorem QueueInv.onChain {t : ProcTable} (hq : QueueInv t) {d s : Pid} :
    OnChain t d s ↔ SendsTo t s d := by
  obtain ⟨l, hl⟩ := hq.queue d
  exact hl.onChain

theorem IpcInv.representation {t : ProcTable} (hI : IpcInv t) : Representation t := by
  refine ⟨fun d => ?_, fun s d d' h h' => ?_, fun s hs => ?_, fun p hp => ?_⟩
  · obtain ⟨l, hl⟩ := hI.queues.queue d
    refine ⟨l, hl.linked, hl.nodup, fun s => ?_⟩
    rw [hl.mem_iff, hI.sendsTo_iff]
  · rw [hI.queues.onChain] at h h'
    exact h.unique h'
  · apply hI.queues.off
    intro hsend
    obtain ⟨d, hd⟩ := hI.queues.target s hsend
    exact hs d (hI.queues.onChain.mpr ⟨hsend, hd⟩)
  · exact (hI.shape p).exactlyOne hp

/-- After every call of a run from the booted machine, the representation
    invariant holds. -/
theorem ipcRun_representation {img : Image} {k : Machine}
    (h : Reachable (Booted img) IpcStep k) : Representation k.procTable :=
  (ipcRun_inv (fun _ hk => hk.quiescent) h).representation

/-- An image to run concrete calls on. -/
def sampleImage : Image := ⟨0x30000, fun _ => 0x10000⟩

/-- INIT sends to process 4, which is not receiving. -/
theorem ipcRun_representation_send :
    ∃ k, msgSend (bootMachine sampleImage) 3 (proc2pid 4) 0x1000 = .ok k ∧
      (k.procTable 3).pFlags = SENDING ∧ Representation k.procTable := by
  refine ⟨_, rfl, ?_, ?_⟩
  · rfl
  · exact ipcRun_representation (.step (.init (bootMachine_booted sampleImage))
      (.send 3 4 0x1000 rfl (by decide) (by decide) rfl))

/-! ## Deadlock detection -/

/-- In every state of a run `deadlock` ends for any two processes, returns 1
    exactly when the sends lead from `dest` to `src`, and no process reaches
    itself along the sends. -/
theorem ipcRun_deadlock_exact {img : Image} {k : Machine}
    (h : Reachable (Booted img) IpcStep k) :
    (∀ src dest : Pid, ∃ b, deadlock k.procTable (proc2pid src) (proc2pid dest) = .ok b ∧
      (b = true ↔ Relation.TransGen (SendsTo k.procTable) dest src)) ∧
    ∀ s, ¬ Relation.TransGen (SendsTo k.procTable) s s := by
  have hI := ipcRun_inv (fun _ hk => hk.quiescent) h
  refine ⟨fun src dest => ?_, fun s hs => ?_⟩
  · obtain ⟨b, hb, _⟩ := deadlock_returns hI.queues.target hI.msg_ne hI.acyclic src dest
    refine ⟨b, hb, ?_⟩
    rw [← deadlock_eq_true hI.queues.target hI.msg_ne hI.acyclic, hb, Except.ok.injEq]
  · rw [← edge_waitsFor] at hs
    exact hI.acyclic s hs

/-- INIT is sending to process 4: a send from 4 back to INIT closes a cycle. -/
theorem ipcRun_deadlock_exact_send :
    ∃ k, msgSend (bootMachine sampleImage) 3 (proc2pid 4) 0x1000 = .ok k ∧
      deadlock k.procTable (proc2pid 4) (proc2pid 3) = .ok true ∧
      Relation.TransGen (SendsTo k.procTable) 3 4 := by
  refine ⟨_, rfl, ?_, ?_⟩
  · rfl
  · obtain ⟨b, hb, hexact⟩ := (ipcRun_deadlock_exact (.step
      (.init (bootMachine_booted sampleImage))
      (.send 3 4 0x1000 rfl (by decide) (by decide) rfl))).1 4 3
    refine hexact.mp ?_
    rw [← Except.ok.injEq, ← hb]
    rfl

/-! ## No missed rendezvous -/

/-- In no state of a run is a sender blocked while its receiver is blocked in a
    receive that accepts it; the queue of a receiver from `ANY` is empty. -/
theorem ipcRun_no_missed_rendezvous {img : Image} {k : Machine}
    (h : Reachable (Booted img) IpcStep k) :
    (∀ s d, ¬ (SendsTo k.procTable s d ∧ Accepts k.procTable d s)) ∧
    ∀ d, (k.procTable d).pFlags &&& RECEIVING ≠ 0 → (k.procTable d).pRecvfrom = ANY →
      (k.procTable d).qSending = none ∧ ∀ s, ¬ OnChain k.procTable d s := by
  have hI := ipcRun_inv (fun _ hk => hk.quiescent) h
  refine ⟨fun s d hsd => hI.meet s d hsd.1 hsd.2, fun d hrecv hany => ?_⟩
  obtain ⟨l, hl⟩ := hI.queues.queue d
  have hnone : ∀ s, ¬ SendsTo k.procTable s d := fun s hs => hI.meet s d hs ⟨hrecv, .inr hany⟩
  constructor
  · rw [hl.head_eq_none, List.eq_nil_iff_forall_not_mem]
    intro s hs
    exact hnone s ((hl.mem_iff s).mp hs)
  · intro s hs
    exact hnone s (hl.onChain.mp hs)

/-- TASK_SYS waits for anybody, and then INIT sends to process 4. -/
theorem ipcRun_no_missed_rendezvous_receive :
    ∃ k k', msgReceive (bootMachine sampleImage) TASK_SYS ANY 0x2000 = .ok k ∧
      msgSend k 3 (proc2pid 4) 0x1000 = .ok k' ∧ (k'.procTable TASK_SYS).pRecvfrom = ANY ∧
      (k'.procTable TASK_SYS).qSending = none := by
  refine ⟨_, _, rfl, rfl, ?_, ?_⟩
  · rfl
  · refine ((ipcRun_no_missed_rendezvous (.step (.step
      (.init (bootMachine_booted sampleImage))
      (.receive TASK_SYS ANY 0x2000 rfl (.inl rfl) (by decide) rfl))
      (.send 3 4 0x1000 rfl (by decide) (by decide) rfl))).2 TASK_SYS ?_ ?_).1
    · decide
    · rfl

/-! ## The assertions -/

/-- In every state of a run of system calls, a valid call of a ready process
    trips no assertion. -/
theorem sysRun_assertions_valid {img : Image} {k : Machine}
    (h : Reachable (fun k => Booted img k ∧ k.kReenter = 0) SysStep k) {p : Pid}
    {function srcDest : ℤ} {m : Addr} (hp : (k.procTable p).pFlags = 0)
    (hcall : ValidCall p function srcDest) (hm : m ≠ 0) (exp : String) :
    sysSendrec k function srcDest m p ≠ .error (.assertion exp) := by
  obtain ⟨hI, hk⟩ := sysRun_inv (fun _ hk => ⟨hk.1.quiescent, hk.2⟩) h
  intro hc
  rcases hcall with ⟨rfl, d, hd, rfl⟩ | ⟨rfl, hsrc⟩
  · rcases sysSendrec_send_spec hI hk hp hd.symm hm with ⟨k', h'⟩ | ⟨h', _⟩ | ⟨h', _⟩
    · rw [h'] at hc; cases hc
    · rw [h'] at hc; cases hc
    · rw [h'] at hc; cases hc
  · rcases sysSendrec_receive_spec hI hk hp hsrc hm with ⟨k', h'⟩ | ⟨h', _⟩
    · rw [h'] at hc; cases hc
    · rw [h'] at hc; cases hc

/-- Process 5 sends to INIT, which is itself blocked in a send. -/
theorem sysRun_assertions_valid_send :
    ∃ k, sysSendrec (bootMachine sampleImage) SEND (proc2pid 4) 0x1000 3 = .ok k ∧
      ∀ exp, sysSendrec k SEND (proc2pid 3) 0x3000 5 ≠ .error (.assertion exp) := by
  refine ⟨_, rfl, fun exp => ?_⟩
  refine sysRun_assertions_valid (.step (.init ⟨bootMachine_booted sampleImage, rfl⟩)
    (.call 3 SEND (proc2pid 4) 0x1000 rfl ?_ (by decide) rfl)) ?_ ?_ (by decide) exp
  · exact .inl ⟨rfl, 4, by decide, rfl⟩
  · rfl
  · exact .inl ⟨rfl, 3, by decide, rfl⟩

end SimpleOs
