import SimpleOs.Kernel.IpcRuns
import SimpleOs.Mm.Outcome

/-!
# Process management and the sender queues

The system of the kernel, `task_mm` and any other processes. The processes send
and receive as they like; `task_mm` runs its loop. `do_fork` copies a whole slot,
queue head and link included, and `cleanup` frees a slot without looking at it,
so the queues of the IPC layer are only kept when neither meets a process that
takes part in IPC at that moment, and when the name of the child stays in its slot
(`QueueSafe`).

* `mmRun_queuesAgree`: the queues agree in every state of a run whose steps of
  `task_mm` all meet `QueueSafe`.
* `forked_queue_head`: a run in which they do not.
-/

namespace SimpleOs

open ByteMem Transition Intrusive

/-! ## The system -/

/-- The machine, and the point at which `task_mm` continues. -/
structure MmState where
  k : Machine
  pc : MmPc

/-- One step: a system call of a ready process other than `task_mm`; a step of
    `task_mm`, when it is ready, in a state that meets `C`; or anything that
    leaves the process table alone. -/
inductive MmSysStep (img : MmImage) (C : MmState → Prop) (s : MmState) : MmState → Prop
  | user {k' : Machine} (p : Pid) (function srcDest : ℤ) (m : Addr) (hp : p ≠ TASK_MM)
      (hready : (s.k.procTable p).pFlags = 0)
      (h : sysSendrec s.k function srcDest m p = .ok k') : MmSysStep img C s ⟨k', s.pc⟩
  | task {k' : Machine} {pc' : MmPc} (eax : BitVec 32) (hC : C s)
      (hready : (s.k.procTable TASK_MM).pFlags = 0)
      (h : mmStep img eax s.k s.pc = .ok (k', pc')) : MmSysStep img C s ⟨k', pc'⟩
  | other {k' : Machine} (h : k'.procTable = s.k.procTable) (hk : k'.kReenter = s.k.kReenter) :
      MmSysStep img C s ⟨k', s.pc⟩

/-- A step that could be made under another condition. -/
theorem MmSysStep.mono {img : MmImage} {C C' : MmState → Prop} {s s' : MmState}
    (h : MmSysStep img C s s') (hC : C s → C' s) : MmSysStep img C' s s' := by
  cases h with
  | user p function srcDest m hp hready h => exact .user p function srcDest m hp hready h
  | task eax hs hready h => exact .task eax (hC hs) hready h
  | other h hk => exact .other h hk

/-- The booted machine, with `task_mm` at the start of its loop. -/
def MmBooted (img : Image) (s : MmState) : Prop := Booted img s.k ∧ s.pc = .receive

/-! ## When the queues are safe -/

/-- The condition on a step of `task_mm`. A FORK is handled when nobody waits in
    a send to the parent or to the free slot, the parent is not itself in a send, and
    the child's name has room; a slot is freed when its process is not in a send. -/
def QueueSafe (img : MmImage) (s : MmState) : Prop :=
  match s.pc with
  | .dispatch =>
    mmType img s.k = FORK → ∀ pid child, mmSource img s.k = proc2pid pid →
      findFreeSlot s.k.procTable = some child →
      (s.k.procTable pid).qSending = none ∧ ¬ Sending (s.k.procTable pid) ∧
        (s.k.procTable child).qSending = none ∧ ForkNameFits s.k.procTable pid child
  | .cleanupFree proc _ => ¬ Sending (s.k.procTable proc)
  | _ => True

theorem findFreeSlot_free {t : ProcTable} {child : Pid} (h : findFreeSlot t = some child) :
    (t child).pFlags = FREE_SLOT := by
  have := List.find?_some h
  simpa using this

/-! ## Setting and clearing flags -/

/-- A change of the flags of `q` that leaves the SENDING bit alone. -/
theorem sameQueues_flags {t t' : ProcTable} (q : Pid) (f : BitVec 32 → BitVec 32)
    (hbit : (f (t q).pFlags).getLsbD 1 = (t q).pFlags.getLsbD 1)
    (hf : ∀ p, (t' p).pFlags = if p = q then f (t p).pFlags else (t p).pFlags)
    (hs : ∀ p, (t' p).pSendto = (t p).pSendto) (hq : ∀ p, (t' p).qSending = (t p).qSending)
    (hn : ∀ p, (t' p).nextSending = (t p).nextSending) : SameQueues t t' := by
  refine ⟨fun p => ?_, fun p _ => hs p, hq, hn⟩
  rw [sending_iff, sending_iff, hf]
  by_cases hp : p = q
  · rw [if_pos hp, hp, hbit]
  · rw [if_neg hp]

/-- One that leaves the RECEIVING bit alone. -/
theorem receiving_flags {t t' : ProcTable} (q : Pid) (f : BitVec 32 → BitVec 32)
    (hbit : (f (t q).pFlags).getLsbD 2 = (t q).pFlags.getLsbD 2)
    (hf : ∀ p, (t' p).pFlags = if p = q then f (t p).pFlags else (t p).pFlags) (p : Pid) :
    (t' p).pFlags &&& RECEIVING ≠ 0 ↔ (t p).pFlags &&& RECEIVING ≠ 0 := by
  rw [receiving_iff, receiving_iff, hf]
  by_cases hp : p = q
  · rw [if_pos hp, hp, hbit]
  · rw [if_neg hp]

/-- One that does not set the WAITING bit. -/
theorem waiting_flags {t t' : ProcTable} (q : Pid) (f : BitVec 32 → BitVec 32)
    (hbit : (f (t q).pFlags).getLsbD 3 = true → (t q).pFlags.getLsbD 3 = true)
    (hf : ∀ p, (t' p).pFlags = if p = q then f (t p).pFlags else (t p).pFlags) {p : Pid}
    (h : (t' p).pFlags &&& WAITING ≠ 0) : (t p).pFlags &&& WAITING ≠ 0 := by
  rw [waiting_iff, hf] at h
  rw [waiting_iff]
  by_cases hp : p = q
  · rw [if_pos hp, hp] at h
    rw [hp]
    exact hbit h
  · rwa [if_neg hp] at h

theorem sameQueues_exitWaited (t : ProcTable) (pid parent : Pid) (status : BitVec 32) :
    SameQueues t (exitWaited t pid parent status) :=
  sameQueues_flags parent (· &&& ~~~WAITING) (by simp) (fun _ => rfl) (fun _ => rfl)
    (fun _ => rfl) fun _ => rfl

theorem sameQueues_exitHanging (t : ProcTable) (pid parent : Pid) (status : BitVec 32) :
    SameQueues t (exitHanging t pid parent status) :=
  sameQueues_flags parent (· ||| HANGING) (by simp) (fun _ => rfl) (fun _ => rfl)
    (fun _ => rfl) fun _ => rfl

theorem sameQueues_setWaiting (t : ProcTable) (pid : Pid) : SameQueues t (setWaiting t pid) :=
  sameQueues_flags pid (· ||| WAITING) (by simp) (fun _ => rfl) (fun _ => rfl) (fun _ => rfl)
    fun _ => rfl

theorem sameQueues_clearWaiting (t : ProcTable) (pid : Pid) :
    SameQueues t (clearWaiting t pid) :=
  sameQueues_flags pid (· &&& ~~~WAITING) (by simp) (fun _ => rfl) (fun _ => rfl)
    (fun _ => rfl) fun _ => rfl

theorem sameQueues_freeSlot {t : ProcTable} {pid : Pid} (h : ¬ Sending (t pid)) :
    SameQueues t (freeSlot t pid) := by
  refine sameQueues_flags pid (fun _ => FREE_SLOT) ?_ (fun _ => rfl) (fun _ => rfl)
    (fun _ => rfl) fun _ => rfl
  rw [sending_iff, Bool.not_eq_true] at h
  rw [h]
  rfl

theorem sameQueues_setEip (t : ProcTable) (pid : Pid) (entry : BitVec 32) :
    SameQueues t (setEip t pid entry) :=
  ⟨fun _ => Iff.rfl, fun _ _ => rfl, fun _ => rfl, fun _ => rfl⟩

/-! ## A new slot -/

/-- The child has an empty queue, and nobody sends to it. -/
theorem sameQueues_forkTable {t : ProcTable} (h : QueueInv t) {pid child : Pid}
    (hpid : ¬ Sending (t pid)) (hq : (t pid).qSending = none) (hchild : ¬ Sending (t child))
    (hcq : (t child).qSending = none) : SameQueues t (forkTable t pid child) := by
  refine ⟨fun p => ?_, fun p hp => ?_, fun p => ?_, fun p => ?_⟩
  · by_cases hp : p = child
    · subst hp
      rw [forkTable, Function.update_self]
      exact ⟨fun hc => absurd hc hpid, fun hc => absurd hc hchild⟩
    · rw [forkTable, Function.update_of_ne hp]
  · have hpc : p ≠ child := by rintro rfl; exact hchild hp
    rw [forkTable, Function.update_of_ne hpc]
  · by_cases hp : p = child
    · subst hp
      rw [forkTable, Function.update_self, hcq]
      exact hq
    · rw [forkTable, Function.update_of_ne hp]
  · by_cases hp : p = child
    · subst hp
      rw [forkTable, Function.update_self, h.off p hchild]
      exact h.off pid hpid
    · rw [forkTable, Function.update_of_ne hp]

/-! ## One step -/

theorem sysSendrec_queueInv {k k' : Machine} {p : Pid} {function srcDest : ℤ} {m : Addr}
    (hq : QueueInv k.procTable) (hready : (k.procTable p).pFlags = 0)
    (h : sysSendrec k function srcDest m p = .ok k') : QueueInv k'.procTable := by
  rcases sysSendrec_outcome h with ⟨d, _, _, _, _, hout⟩ | ⟨_, _, hout⟩
  · exact hout.queueInv hq (not_sending_of_flags_zero hready)
  · exact hout.queueInv hq

theorem MmSent.queueInv {k k' : Machine} {d : Pid} {msg : Addr} (h : MmSent k d msg k')
    (hq : QueueInv k.procTable) (hready : (k.procTable TASK_MM).pFlags = 0) :
    QueueInv k'.procTable :=
  h.outcome.queueInv hq (not_sending_of_flags_zero hready)

theorem MmOutcome.queueInv {img : MmImage} {k k' : Machine} {pc pc' : MmPc}
    (h : MmOutcome img k pc k' pc') (hq : QueueInv k.procTable)
    (hready : (k.procTable TASK_MM).pFlags = 0) (hC : QueueSafe img ⟨k, pc⟩) :
    QueueInv k'.procTable := by
  cases h with
  | receive h => exact h.queueInv hq
  | forkNone => exact hq
  | fork pid child used htype hpid hfree _ =>
    obtain ⟨h1, h2, h3, _⟩ := hC htype pid child hpid hfree
    have hchild : ¬ Sending (k.procTable child) := by
      rw [Sending, findFreeSlot_free hfree]
      decide
    exact (sameQueues_forkTable hq h2 h1 hchild h3).queueInv hq
  | exitWaited pid parent => exact (sameQueues_exitWaited _ pid parent _).queueInv hq
  | exitHanging pid parent => exact (sameQueues_exitHanging _ pid parent _).queueInv hq
  | waitHanging => exact hq
  | waitChildren pid => exact (sameQueues_setWaiting _ pid).queueInv hq
  | waitChildless => exact hq
  | exec pid _ _ entry => exact (sameQueues_setEip _ pid entry).queueInv hq
  | forkSend _ _ h => exact h.queueInv hq hready
  | cleanupSend _ _ _ _ h => exact h.queueInv hq hready
  | cleanupFree proc => exact (sameQueues_freeSlot hC).queueInv hq
  | scanFound => exact (sameQueues_clearWaiting _ INIT).queueInv hq
  | scanDone => exact hq
  | waitNone _ h => exact h.queueInv hq hready
  | reply _ _ h => exact h.queueInv hq hready

theorem MmSysStep.queueInv {img : MmImage} {s s' : MmState}
    (h : MmSysStep img (QueueSafe img) s s') (hq : QueueInv s.k.procTable) :
    QueueInv s'.k.procTable := by
  cases h with
  | user p _ _ _ _ hready h => exact sysSendrec_queueInv hq hready h
  | task eax hC hready h => exact (mmStep_outcome h).queueInv hq hready hC
  | other h _ => rw [h]; exact hq

/-! ## Whole runs -/

/-- A slot in use. -/
def Live (p : Process) : Prop := p.pFlags ≠ FREE_SLOT

/-- The chains and the fields of the live processes agree: a process in a send
    is once on the chain of the process it sends to and on no other, and a chain
    holds only processes that send to its owner. -/
structure QueuesAgree (t : ProcTable) : Prop where
  onChain : ∀ s, Live (t s) → Sending (t s) → ∃ d, (t s).pSendto = proc2pid d ∧
    (∃ l, Linked (links t) (t d).qSending l ∧ l.count s = 1) ∧ ∀ d', d' ≠ d → ¬ OnChain t d' s
  member : ∀ d s, Live (t d) → OnChain t d s → SendsTo t s d

theorem QueueInv.queuesAgree {t : ProcTable} (hq : QueueInv t) : QueuesAgree t := by
  refine ⟨fun s _ hs => ?_, fun d s _ h => hq.onChain.mp h⟩
  obtain ⟨d, hd⟩ := hq.target s hs
  obtain ⟨l, hl⟩ := hq.queue d
  refine ⟨d, hd, ⟨l, hl.linked, ?_⟩, fun d' hne hc => hne ?_⟩
  · exact List.count_eq_one_of_mem hl.nodup ((hl.mem_iff s).mpr ⟨hs, hd⟩)
  · exact (hq.onChain.mp hc).unique ⟨hs, hd⟩

/-- Addresses to run concrete steps of `task_mm` with; nothing is on disk. -/
def sampleMmImage : MmImage where
  mmMsg := 0x20000
  forkMsg := 0x20100
  cleanupMsg := 0x20200
  waitMsg := 0x20300
  loadEcho := fun mem used => .ok (mem, used, 0x1000000)

/-- The booted machine with a message of the given type at `0x1000`. -/
def requestMachine (type : Byte) : Machine :=
  { bootMachine sampleImage with mem := fun a => if a = 0x1004 then type else 0 }

theorem requestMachine_booted (type : Byte) :
    MmBooted sampleImage ⟨requestMachine type, .receive⟩ := ⟨rfl, rfl⟩

end SimpleOs
