import SimpleOs.Mm.Queues

/-!
# The slots of the process table

What the steps of the system do to the slots: whether a slot is in use, whose
child its process is, and which memory it has. The calls of the processes and
most steps of `task_mm` leave all of this alone (`SameSlots`); `do_fork` fills a
slot, and `cleanup` frees one (`MmOutcome.slotChange`).
-/

namespace SimpleOs

open ByteMem Transition

/-! ## Slots in use -/

/-- The FREE_SLOT bit is clear. -/
def Occupied (p : Process) : Prop := p.pFlags &&& FREE_SLOT = 0

instance (p : Process) : Decidable (Occupied p) := inferInstanceAs (Decidable (_ = _))

/-- The slots that only `do_fork` fills. -/
def Forkable (p : Pid) : Prop := NR_TASKS + NR_NATIVE_PROCS ≤ p.val

instance (p : Pid) : Decidable (Forkable p) := inferInstanceAs (Decidable (_ ≤ _))

theorem occupied_iff {p : Process} : Occupied p ↔ p.pFlags.getLsbD 5 = false := by
  have h := and_flag_ne_zero p.pFlags 5 (by omega)
  rw [Occupied, ← Bool.not_eq_true, ← h, not_not]
  rfl

theorem not_occupied_of_free {p : Process} (h : p.pFlags = FREE_SLOT) : ¬ Occupied p := by
  rw [Occupied, h]
  decide

theorem occupied_of_ready {p : Process} (h : p.pFlags = 0) : Occupied p := by
  rw [Occupied, h]
  decide

/-- Nothing about the slots has changed. -/
structure SameSlots (t t' : ProcTable) : Prop where
  occupied : ∀ p, Occupied (t' p) ↔ Occupied (t p)
  parent : ∀ p, (t' p).pParent = (t p).pParent
  ldtData : ∀ p, (t' p).ldtData = (t p).ldtData

theorem SameSlots.refl (t : ProcTable) : SameSlots t t :=
  ⟨fun _ => Iff.rfl, fun _ => rfl, fun _ => rfl⟩

/-- A change of the flags of `q` that leaves the FREE_SLOT bit alone. -/
theorem sameSlots_flags {t t' : ProcTable} (q : Pid) (f : BitVec 32 → BitVec 32)
    (hbit : (f (t q).pFlags).getLsbD 5 = (t q).pFlags.getLsbD 5)
    (hf : ∀ p, (t' p).pFlags = if p = q then f (t p).pFlags else (t p).pFlags)
    (hp : ∀ p, (t' p).pParent = (t p).pParent) (hl : ∀ p, (t' p).ldtData = (t p).ldtData) :
    SameSlots t t' := by
  refine ⟨fun p => ?_, hp, hl⟩
  rw [occupied_iff, occupied_iff, hf]
  by_cases hpq : p = q
  · rw [if_pos hpq, hpq, hbit]
  · rw [if_neg hpq]

theorem sameSlots_deliver (t : ProcTable) (d : Pid) : SameSlots t (deliver t d) :=
  sameSlots_flags d (· &&& ~~~RECEIVING) (by simp) (fun _ => rfl) (fun _ => rfl) fun _ => rfl

theorem sameSlots_enqueue (t : ProcTable) (s d : Pid) (m : Addr) (tail : Option Pid) :
    SameSlots t (enqueue t s d m tail) :=
  sameSlots_flags s (· ||| SENDING) (by simp) (fun _ => rfl) (fun _ => rfl) fun _ => rfl

theorem sameSlots_dequeue (t : ProcTable) (d f : Pid) (prev : Option Pid) :
    SameSlots t (dequeue t d f prev) :=
  sameSlots_flags f (· &&& ~~~SENDING) (by simp) (fun _ => rfl) (fun _ => rfl) fun _ => rfl

theorem sameSlots_park (t : ProcTable) (d : Pid) (r : ℤ) (m : Addr) :
    SameSlots t (park t d r m) :=
  sameSlots_flags d (· ||| RECEIVING) (by simp) (fun _ => rfl) (fun _ => rfl) fun _ => rfl

theorem sameSlots_exitWaited (t : ProcTable) (pid parent : Pid) (status : BitVec 32) :
    SameSlots t (exitWaited t pid parent status) :=
  sameSlots_flags parent (· &&& ~~~WAITING) (by simp) (fun _ => rfl) (fun _ => rfl) fun _ => rfl

theorem sameSlots_exitHanging (t : ProcTable) (pid parent : Pid) (status : BitVec 32) :
    SameSlots t (exitHanging t pid parent status) :=
  sameSlots_flags parent (· ||| HANGING) (by simp) (fun _ => rfl) (fun _ => rfl) fun _ => rfl

theorem sameSlots_setWaiting (t : ProcTable) (pid : Pid) : SameSlots t (setWaiting t pid) :=
  sameSlots_flags pid (· ||| WAITING) (by simp) (fun _ => rfl) (fun _ => rfl) fun _ => rfl

theorem sameSlots_clearWaiting (t : ProcTable) (pid : Pid) : SameSlots t (clearWaiting t pid) :=
  sameSlots_flags pid (· &&& ~~~WAITING) (by simp) (fun _ => rfl) (fun _ => rfl) fun _ => rfl

/-! ## The steps -/

theorem SendOutcome.sameSlots {k k' : Machine} {s d : Pid} {m : Addr}
    (h : SendOutcome k s d m k') : SameSlots k.procTable k'.procTable := by
  cases h with
  | deliver => exact sameSlots_deliver _ d
  | enqueue _ _ tail => exact sameSlots_enqueue _ s d m tail

theorem ReceiveOutcome.sameSlots {k k' : Machine} {w : Pid} {src : ℤ} {m : Addr}
    (h : ReceiveOutcome k w src m k') : SameSlots k.procTable k'.procTable := by
  cases h with
  | interrupt => exact ⟨fun _ => Iff.rfl, fun _ => rfl, fun _ => rfl⟩
  | take f prev => exact sameSlots_dequeue _ w f prev
  | wait => exact sameSlots_park _ w _ _

theorem sysSendrec_sameSlots {k k' : Machine} {p : Pid} {function srcDest : ℤ} {m : Addr}
    (h : sysSendrec k function srcDest m p = .ok k') : SameSlots k.procTable k'.procTable := by
  rcases sysSendrec_outcome h with ⟨d, _, _, _, _, hout⟩ | ⟨_, _, hout⟩
  · exact hout.sameSlots
  · exact hout.sameSlots

/-- What a step of `task_mm` does to the slots: nothing, or it fills a free slot
    for a request in `mm_msg`, or it frees one in `cleanup`. -/
theorem MmOutcome.slotChange {img : MmImage} {k k' : Machine} {pc pc' : MmPc}
    (h : MmOutcome img k pc k' pc') :
    SameSlots k.procTable k'.procTable ∨
    (∃ pid child, pc = .dispatch ∧ pc' = .forkSend (proc2pid pid) child ∧
      mmType img k = FORK ∧ mmSource img k = proc2pid pid ∧
      findFreeSlot k.procTable = some child ∧ Forkable child ∧
      k'.procTable = forkTable k.procTable pid child) ∨
    (∃ proc ret, pc = .cleanupFree proc ret ∧ pc' = resumeAt ret ∧
      k'.procTable = freeSlot k.procTable proc) := by
  cases h with
  | fork pid child used htype hpid hfree hchild =>
    exact .inr (.inl ⟨pid, child, rfl, rfl, htype, hpid, hfree, hchild, rfl⟩)
  | cleanupFree proc ret => exact .inr (.inr ⟨proc, ret, rfl, rfl, rfl⟩)
  | receive h => exact .inl h.sameSlots
  | forkNone => exact .inl (.refl _)
  | exitWaited pid parent => exact .inl (sameSlots_exitWaited _ pid parent _)
  | exitHanging pid parent => exact .inl (sameSlots_exitHanging _ pid parent _)
  | waitHanging => exact .inl (.refl _)
  | waitChildren pid => exact .inl (sameSlots_setWaiting _ pid)
  | waitChildless => exact .inl (.refl _)
  | exec pid => exact .inl ⟨fun _ => Iff.rfl, fun _ => rfl, fun _ => rfl⟩
  | forkSend _ _ h => exact .inl h.outcome.sameSlots
  | cleanupSend _ _ _ _ h => exact .inl h.outcome.sameSlots
  | scanFound => exact .inl (sameSlots_clearWaiting _ INIT)
  | scanDone => exact .inl (.refl _)
  | waitNone _ h => exact .inl h.outcome.sameSlots
  | reply _ _ h => exact .inl h.outcome.sameSlots

/-! ### The two changes -/

theorem occupied_freeSlot {t : ProcTable} {proc p : Pid} :
    Occupied (freeSlot t proc p) ↔ p ≠ proc ∧ Occupied (t p) := by
  by_cases hp : p = proc
  · subst hp
    refine ⟨fun hc => absurd hc (not_occupied_of_free (if_pos rfl)), fun hc => absurd rfl hc.1⟩
  · have hflags : (freeSlot t proc p).pFlags = (t p).pFlags := if_neg hp
    rw [Occupied, hflags]
    exact ⟨fun hc => ⟨hp, hc⟩, fun hc => hc.2⟩

theorem forkTable_self (t : ProcTable) (pid child : Pid) :
    forkTable t pid child child = forkSlot t pid child := Function.update_self ..

theorem forkTable_of_ne (t : ProcTable) (pid : Pid) {child p : Pid} (h : p ≠ child) :
    forkTable t pid child p = t p := Function.update_of_ne h _ _

/-- At boot the slots behind the native processes are free. -/
theorem Booted.not_occupied {img : Image} {k : Machine} (h : Booted img k) {p : Pid}
    (hp : Forkable p) : ¬ Occupied (k.procTable p) := by
  apply not_occupied_of_free
  have htable : k.procTable = initProc img := h
  have hge : p.val ≥ NR_TASKS + NR_NATIVE_PROCS := hp
  rw [htable, initProc, initSlot, if_pos hge]

/-! ## Runs in which only `task_mm` allocates

`alloc_mem` and `free_mem` are called by nobody else (the calls in start.c are
not compiled). -/

/-- A step of `MmSysStep` that leaves `memory_used` and `mm_start` to
    `task_mm`. -/
inductive LifeStep (img : MmImage) (C : MmState → Prop) (s : MmState) : MmState → Prop
  | user {k' : Machine} (p : Pid) (function srcDest : ℤ) (m : Addr) (hp : p ≠ TASK_MM)
      (hready : (s.k.procTable p).pFlags = 0)
      (h : sysSendrec s.k function srcDest m p = .ok k') : LifeStep img C s ⟨k', s.pc⟩
  | task {k' : Machine} {pc' : MmPc} (eax : BitVec 32) (hC : C s)
      (hready : (s.k.procTable TASK_MM).pFlags = 0)
      (h : mmStep img eax s.k s.pc = .ok (k', pc')) : LifeStep img C s ⟨k', pc'⟩
  | other {k' : Machine} (h : k'.procTable = s.k.procTable) (hk : k'.kReenter = s.k.kReenter)
      (hused : k'.memoryUsed = s.k.memoryUsed) (hstart : k'.mmStart = s.k.mmStart) :
      LifeStep img C s ⟨k', s.pc⟩

theorem LifeStep.sys {img : MmImage} {C : MmState → Prop} {s s' : MmState}
    (h : LifeStep img C s s') : MmSysStep img C s s' := by
  cases h with
  | user p function srcDest m hp hready h => exact .user p function srcDest m hp hready h
  | task eax hC hready h => exact .task eax hC hready h
  | other h hk _ _ => exact .other h hk

/-! ## Concrete runs

A run written as a list of what the parties do. -/

/-- One entry of such a list. -/
inductive MmCall where
  | task
  | user (p : Pid) (function srcDest : ℤ) (m : Addr)
  | write (mem : Mem)

/-- The step, if it can be made. -/
def MmState.perform (img : MmImage) (s : MmState) : MmCall → Option MmState
  | .task =>
    match mmStep img 0 s.k s.pc with
    | .ok (k', pc') => if (s.k.procTable TASK_MM).pFlags = 0 then some ⟨k', pc'⟩ else none
    | .error _ => none
  | .user p function srcDest m =>
    match sysSendrec s.k function srcDest m p with
    | .ok k' => if p ≠ TASK_MM ∧ (s.k.procTable p).pFlags = 0 then some ⟨k', s.pc⟩ else none
    | .error _ => none
  | .write mem => some ⟨{ s.k with mem := mem }, s.pc⟩

/-- The run, if every state in it meets `C`. -/
def MmState.run (img : MmImage) (C : MmState → Prop) [DecidablePred C] :
    List MmCall → MmState → Option MmState
  | [], s => some s
  | c :: l, s => if C s then (s.perform img c).bind (MmState.run img C l) else none

theorem MmState.perform_step {img : MmImage} {C : MmState → Prop} {s s' : MmState} {c : MmCall}
    (hC : C s) (h : s.perform img c = some s') : LifeStep img C s s' := by
  cases c with
  | task =>
    cases hstep : mmStep img 0 s.k s.pc with
    | ok r =>
      simp only [MmState.perform, hstep] at h
      split_ifs at h with hready
      obtain rfl := Option.some.inj h
      exact .task 0 hC hready hstep
    | error e =>
      simp only [MmState.perform, hstep] at h
      cases h
  | user p function srcDest m =>
    cases hcall : sysSendrec s.k function srcDest m p with
    | ok k' =>
      simp only [MmState.perform, hcall] at h
      split_ifs at h with hp
      obtain rfl := Option.some.inj h
      exact .user p function srcDest m hp.1 hp.2 hcall
    | error e =>
      simp only [MmState.perform, hcall] at h
      cases h
  | write mem =>
    obtain rfl := Option.some.inj h
    exact .other rfl rfl rfl rfl

theorem MmState.run_reachable {img : MmImage} {init : MmState → Prop} {C : MmState → Prop}
    [DecidablePred C] : ∀ (l : List MmCall) {s s' : MmState}, s.run img C l = some s' →
      Reachable init (LifeStep img C) s → Reachable init (LifeStep img C) s' := by
  intro l
  induction l with
  | nil =>
    intro s s' h hs
    obtain rfl := Option.some.inj h
    exact hs
  | cons c l ih =>
    intro s s' h hs
    unfold MmState.run at h
    split_ifs at h with hC
    obtain ⟨s₁, h₁, h⟩ := Option.bind_eq_some_iff.mp h
    exact ih h (.step hs (MmState.perform_step hC h₁))

/-- A state with the property `P` at the end of a run. -/
theorem MmState.exists_life (img : MmImage) (init : MmState → Prop) {s : MmState} (hs : init s)
    (C : MmState → Prop) [DecidablePred C] (l : List MmCall) (P : MmState → Prop) [DecidablePred P]
    (h : ((s.run img C l).any fun s' => decide (P s')) = true) :
    ∃ s', Reachable init (LifeStep img C) s' ∧ P s' := by
  cases hrun : s.run img C l with
  | none =>
    rw [hrun] at h
    cases h
  | some s' =>
    rw [hrun] at h
    exact ⟨s', MmState.run_reachable l hrun (.init hs), of_decide_eq_true h⟩

theorem MmState.exists_reachable_in (img : MmImage) {init : MmState → Prop} {s : MmState}
    (hs : init s) (C : MmState → Prop) [DecidablePred C] (l : List MmCall) (P : MmState → Prop)
    [DecidablePred P] (h : ((s.run img C l).any fun s' => decide (P s')) = true) :
    ∃ s', Reachable init (MmSysStep img C) s' ∧ P s' := by
  obtain ⟨s', hreach, hP⟩ := MmState.exists_life img init hs C l P h
  exact ⟨s', hreach.mono (fun _ h0 => h0) fun _ _ hstep => hstep.sys, hP⟩

theorem MmState.exists_reachable (img : MmImage) {init : MmState → Prop} {s : MmState}
    (hs : init s) (l : List MmCall) (P : MmState → Prop) [DecidablePred P]
    (h : ((s.run img (fun _ => True) l).any fun s' => decide (P s')) = true) :
    ∃ s', Reachable init (MmSysStep img fun _ => True) s' ∧ P s' :=
  MmState.exists_reachable_in img hs (fun _ => True) l P h

/-! ### A child comes and goes -/

/-- INIT has a WAIT at `0x1000`, and the child an EXIT. -/
def waitExitMem : Mem := fun a => if a = 0x1004 then 6 else if a = childBase + 0x1004 then 5 else 0

/-- INIT forks, waits, and gets the exit of its child. -/
def forkWaitExit : List MmCall :=
  [.task, .user INIT SEND 2 0x1000, .task, .task, .user 7 RECEIVE 2 0x1000, .task,
    .user INIT RECEIVE 2 0x1000, .write waitExitMem, .task, .user INIT SEND 2 0x1000, .task, .task,
    .user 7 SEND 2 0x1000, .task, .task, .user INIT RECEIVE 2 0x1000, .task, .task]

end SimpleOs
