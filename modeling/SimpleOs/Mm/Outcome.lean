import SimpleOs.Mm.Model

/-!
# What one step of the memory manager can do

`MmOutcome` lists the effects of the steps of `task_mm`: a receive, one of four
sends, the bookkeeping of `do_fork`, `do_exit`, `do_wait`, `do_execl` and
`cleanup` on the process table. `mmStep_outcome` shows that a step that returns
has one of them, so no later proof looks into `mmStep`.
-/

namespace SimpleOs

open ByteMem

/-! ## The effects on the table -/

/-- `do_fork` fills the slot `child`. -/
def forkTable (t : ProcTable) (pid child : Pid) : ProcTable :=
  Function.update t child (forkSlot t pid child)

/-- `do_exit` releases the waiting parent. -/
def exitWaited (t : ProcTable) (pid parent : Pid) (status : BitVec 32) : ProcTable := fun p =>
  { t p with
    exitStatus := if p = pid then status else (t p).exitStatus
    pFlags := if p = parent then (t p).pFlags &&& ~~~WAITING else (t p).pFlags }

/-- `do_exit` marks the parent that is not waiting. -/
def exitHanging (t : ProcTable) (pid parent : Pid) (status : BitVec 32) : ProcTable := fun p =>
  { t p with
    exitStatus := if p = pid then status else (t p).exitStatus
    pFlags := if p = parent then (t p).pFlags ||| HANGING else (t p).pFlags }

/-- `p->p_flags |= WAITING`. -/
def setWaiting (t : ProcTable) (pid : Pid) : ProcTable := fun p =>
  { t p with pFlags := if p = pid then (t p).pFlags ||| WAITING else (t p).pFlags }

/-- `p->p_flags &= ~WAITING`. -/
def clearWaiting (t : ProcTable) (pid : Pid) : ProcTable := fun p =>
  { t p with pFlags := if p = pid then (t p).pFlags &&& ~~~WAITING else (t p).pFlags }

/-- `p->p_flags = FREE_SLOT`. -/
def freeSlot (t : ProcTable) (pid : Pid) : ProcTable := fun p =>
  { t p with pFlags := if p = pid then FREE_SLOT else (t p).pFlags }

/-- `p->regs.eip = entry`. -/
def setEip (t : ProcTable) (pid : Pid) (entry : BitVec 32) : ProcTable := fun p =>
  { t p with regs := if p = pid then { (t p).regs with eip := entry } else (t p).regs }

/-! ## The messages -/

/-- `mm_msg` cleared by `send_recv`. -/
def clearMmMsg (img : MmImage) (k : Machine) : Machine :=
  { k with mem := pAsmMemset k.mem img.mmMsg 0 sizeofMessage }

/-- The message to the child. -/
def forkMessage (img : MmImage) (k : Machine) : Machine :=
  { k with
    mem := writeWord (writeWord (writeWord k.mem (img.forkMsg + offType) SYSCALL_RET)
      (img.forkMsg + offM3i1) 0) (img.forkMsg + offM3i2) 0 }

/-- The message to the parent of `proc`. -/
def cleanupMessage (img : MmImage) (k : Machine) (proc : Pid) : Machine :=
  { k with
    mem := writeWord (writeWord (writeWord k.mem (img.cleanupMsg + offType) SYSCALL_RET)
      (img.cleanupMsg + offM3i2) (BitVec.ofInt 32 (proc2pid proc)))
      (img.cleanupMsg + offM3i1) (k.procTable proc).exitStatus }

/-- The message to a process without children. -/
def waitMessage (img : MmImage) (k : Machine) : Machine :=
  { k with
    mem := writeWord (writeWord k.mem (img.waitMsg + offType) SYSCALL_RET)
      (img.waitMsg + offM3i2) (BitVec.ofInt 32 NO_TASK) }

/-- The reply. -/
def replyMessage (img : MmImage) (k : Machine) (retval : BitVec 32) : Machine :=
  { k with
    mem := writeWord (writeWord k.mem (img.mmMsg + offM3i1) retval)
      (img.mmMsg + offType) SYSCALL_RET }

/-- The memory manager has sent the message at `msg` to `d`. -/
structure MmSent (k : Machine) (d : Pid) (msg : Addr) (k' : Machine) : Prop where
  ne : TASK_MM ≠ d
  deadlock : deadlock k.procTable (proc2pid TASK_MM) (proc2pid d) = .ok false
  outcome : SendOutcome (stampSource k TASK_MM msg) TASK_MM d msg k'

/-- Where `cleanup` continues. -/
def resumeAt : Resume → MmPc
  | .exit pid => .exitScan pid 0
  | .scan pid i => .exitScan pid (i.val + 1)
  | .wait => .receive

/-- The memory after `do_fork` on behalf of `pid`. -/
def forkMem (img : MmImage) (k : Machine) (pid child : Pid) : Mem :=
  writeWord (pAsmMemcpy k.mem (childBase + 0x100000)
    (segBase (forkTable k.procTable pid child pid).ldtCode + 0x100000) 0x100000)
    (img.mmMsg + offM3i2) (BitVec.ofInt 32 (proc2pid child))

/-! ## The effects -/

/-- The effects of a step of `task_mm` that returns. -/
inductive MmOutcome (img : MmImage) (k : Machine) : MmPc → Machine → MmPc → Prop
  | receive {k' : Machine}
      (h : ReceiveOutcome (stampSource (clearMmMsg img k) TASK_MM img.mmMsg) TASK_MM ANY
        img.mmMsg k') :
      MmOutcome img k .receive k' .dispatch
  | forkNone (htype : mmType img k = FORK) (hfree : findFreeSlot k.procTable = none) :
      MmOutcome img k .dispatch k (.reply (mmSource img k) (-1))
  | fork (pid child : Pid) (used : BitVec 32) (htype : mmType img k = FORK)
      (hpid : mmSource img k = proc2pid pid) (hfree : findFreeSlot k.procTable = some child)
      (hchild : child.val ≥ NR_TASKS + NR_NATIVE_PROCS) :
      MmOutcome img k .dispatch
        { k with
          procTable := forkTable k.procTable pid child
          mem := forkMem img k pid child
          memoryUsed := used }
        (.forkSend (proc2pid pid) child)
  | exitWaited (pid parent : Pid) (htype : mmType img k = EXIT)
      (hpid : mmSource img k = proc2pid pid)
      (hparent : (k.procTable pid).pParent = proc2pid parent)
      (hwait : (k.procTable parent).pFlags &&& WAITING ≠ 0) :
      MmOutcome img k .dispatch
        { k with procTable := SimpleOs.exitWaited k.procTable pid parent (mmStatus img k) }
        (.cleanupSend pid (.exit (proc2pid pid)))
  | exitHanging (pid parent : Pid) (htype : mmType img k = EXIT)
      (hpid : mmSource img k = proc2pid pid)
      (hparent : (k.procTable pid).pParent = proc2pid parent)
      (hwait : ¬ (k.procTable parent).pFlags &&& WAITING ≠ 0) :
      MmOutcome img k .dispatch
        { k with procTable := SimpleOs.exitHanging k.procTable pid parent (mmStatus img k) }
        (.exitScan (proc2pid pid) 0)
  | waitHanging (child : Pid) (htype : mmType img k = WAIT)
      (hchild : hangingChild k.procTable (mmSource img k) = some child) :
      MmOutcome img k .dispatch k (.cleanupSend child .wait)
  | waitChildren (pid : Pid) (htype : mmType img k = WAIT)
      (hpid : mmSource img k = proc2pid pid)
      (hnone : hangingChild k.procTable (proc2pid pid) = none)
      (hchild : ∃ j, (k.procTable j).pParent = proc2pid pid) :
      MmOutcome img k .dispatch { k with procTable := setWaiting k.procTable pid } .receive
  | waitChildless (htype : mmType img k = WAIT)
      (hchild : ¬ ∃ j, (k.procTable j).pParent = mmSource img k) :
      MmOutcome img k .dispatch k (.waitNone (mmSource img k))
  | exec (pid : Pid) (mem : Mem) (used entry eax : BitVec 32) (htype : mmType img k = EXEC)
      (hpid : mmSource img k = proc2pid pid) :
      MmOutcome img k .dispatch
        { k with
          procTable := setEip k.procTable pid entry
          mem := mem
          memoryUsed := used }
        (.reply (proc2pid pid) eax)
  | forkSend {k' : Machine} (src : ℤ) (child : Pid)
      (h : MmSent (forkMessage img k) child img.forkMsg k') :
      MmOutcome img k (.forkSend src child) k' (.reply src 0)
  | cleanupSend {k' : Machine} (proc parent : Pid) (ret : Resume)
      (hparent : (k.procTable proc).pParent = proc2pid parent)
      (h : MmSent (cleanupMessage img k proc) parent img.cleanupMsg k') :
      MmOutcome img k (.cleanupSend proc ret) k' (.cleanupFree proc ret)
  | cleanupFree (proc : Pid) (ret : Resume) :
      MmOutcome img k (.cleanupFree proc ret)
        { k with procTable := freeSlot k.procTable proc } (resumeAt ret)
  | scanFound (pid : ℤ) (i : ℕ) (j : Pid) (h : exitScanFind k.procTable pid i = some j) :
      MmOutcome img k (.exitScan pid i)
        { k with procTable := clearWaiting k.procTable INIT } (.cleanupSend j (.scan pid j))
  | scanDone (pid : ℤ) (i : ℕ) (h : exitScanFind k.procTable pid i = none) :
      MmOutcome img k (.exitScan pid i) k .receive
  | waitNone {k' : Machine} (pid : Pid) (h : MmSent (waitMessage img k) pid img.waitMsg k') :
      MmOutcome img k (.waitNone (proc2pid pid)) k' .receive
  | reply {k' : Machine} (src : Pid) (retval : BitVec 32)
      (h : MmSent (replyMessage img k retval) src img.mmMsg k') :
      MmOutcome img k (.reply (proc2pid src) retval) k' .receive

/-! ## Every step has one of them -/

section Inversion

variable {img : MmImage} {k k' : Machine} {pc' : MmPc}

theorem mmSend_sent {dest : ℤ} {msg : Addr} (h : mmSend k dest msg = .ok k') :
    ∃ d, dest = proc2pid d ∧ MmSent k d msg k' := by
  rcases sysSendrec_outcome h with ⟨d, _, hd, hne, hdead, hout⟩ | ⟨hf, _⟩
  · exact ⟨d, hd, hne, hdead, hout⟩
  · exact absurd hf (by decide)

theorem doFork_outcome {r : Option Pid} (htype : mmType img k = FORK)
    (h : doFork img k = .ok (k', r)) :
    (r = none ∧ MmOutcome img k .dispatch k' (.reply (mmSource img k) (-1))) ∨
    ∃ child, r = some child ∧
      MmOutcome img k .dispatch k' (.forkSend (mmSource img k) child) := by
  unfold doFork at h
  cases hfree : findFreeSlot k.procTable with
  | none =>
    simp only [hfree, Except.ok.injEq, Prod.mk.injEq] at h
    obtain ⟨rfl, rfl⟩ := h
    exact .inl ⟨rfl, .forkNone htype hfree⟩
  | some child =>
    simp only [hfree, bind_eq_ok, assert_eq_ok, exists_const, Except.ok.injEq,
      Prod.mk.injEq] at h
    obtain ⟨hchild, pid, hpid, _, rfl, rfl⟩ := h
    have hsrc : mmSource img k = proc2pid pid := slot_eq_ok.mp hpid
    refine .inr ⟨child, rfl, ?_⟩
    rw [hsrc]
    convert MmOutcome.fork pid child (findFreeArea k.memoryUsed).2 htype hsrc hfree hchild using 1
    simp only [allocMem]
    rcases findFreeArea k.memoryUsed with ⟨_ | i, used⟩ <;> rfl

theorem loadSegments_eq_ok {src : ℤ} {buf : Addr} : ∀ {fuel i : ℕ} {header : Addr} {k k' : Machine},
    loadSegments src buf fuel i header k = .ok k' → ∃ mem, k' = { k with mem := mem } := by
  intro fuel
  induction fuel with
  | zero => intro i header k k' h; simp [loadSegments] at h
  | succ fuel ih =>
    intro i header k k' h
    rw [loadSegments] at h
    split_ifs at h
    · simp only [bind_eq_ok] at h
      obtain ⟨_, _, _, _, h⟩ := h
      obtain ⟨mem, rfl⟩ := ih h
      exact ⟨mem, rfl⟩
    · exact ih h
    · simp only [Except.ok.injEq] at h
      exact ⟨k.mem, h.symm⟩

theorem doExecl_outcome (eax : BitVec 32) (htype : mmType img k = EXEC)
    (h : doExecl img k = .ok k') :
    MmOutcome img k .dispatch k' (.reply (mmSource img k) eax) := by
  simp only [doExecl, bind_eq_ok, assert_eq_ok, exists_const, Except.ok.injEq] at h
  obtain ⟨_, ⟨mem, used, buf⟩, _, k₁, hload, pid, hpid, rfl⟩ := h
  have hsrc : mmSource img k = proc2pid pid := slot_eq_ok.mp hpid
  obtain ⟨mem', rfl⟩ := loadSegments_eq_ok hload
  rw [hsrc]
  set entry := readWord mem (buf + 24)
  convert MmOutcome.exec pid mem'
    (freeMem { k with mem := mem', memoryUsed := used } buf).memoryUsed entry eax htype hsrc using 1
  have htable : Function.update k.procTable pid
      { k.procTable pid with regs := { (k.procTable pid).regs with eip := entry } } =
      setEip k.procTable pid entry := by
    funext p
    by_cases hp : p = pid
    · subst hp; simp [setEip]
    · simp [setEip, hp]
  unfold freeMem
  split_ifs
  · simp only [Machine.modify, htable]
  · simp only [Machine.modify, htable]

theorem doExit_outcome (htype : mmType img k = EXIT) (h : doExit img k = .ok (k', pc')) :
    MmOutcome img k .dispatch k' pc' := by
  simp only [doExit, bind_eq_ok] at h
  obtain ⟨pid, hpid, parent, hparent, h⟩ := h
  have hsrc : mmSource img k = proc2pid pid := slot_eq_ok.mp hpid
  have hpar := slot_eq_ok.mp hparent
  have hflags : ((k.modify pid fun p => { p with exitStatus := mmStatus img k }).procTable
      parent).pFlags = (k.procTable parent).pFlags := by
    by_cases hp : parent = pid
    · subst hp; simp
    · simp [hp]
  rw [hflags] at h
  split_ifs at h with hwait
  · simp only [Except.ok.injEq, Prod.mk.injEq] at h
    obtain ⟨rfl, rfl⟩ := h
    convert MmOutcome.exitWaited pid parent htype hsrc hpar hwait using 1
    · simp only [Machine.modify, Machine.mk.injEq, and_true]
      funext p
      by_cases hp : p = pid
      · subst hp
        by_cases hp' : p = parent
        · subst hp'; simp [exitWaited]
        · simp [exitWaited, hp']
      · by_cases hp' : p = parent
        · subst hp'; simp [exitWaited, hp]
        · simp [exitWaited, hp, hp']
    · exact congrArg (fun s => MmPc.cleanupSend pid (.exit s)) hsrc
  · simp only [Except.ok.injEq, Prod.mk.injEq] at h
    obtain ⟨rfl, rfl⟩ := h
    convert MmOutcome.exitHanging pid parent htype hsrc hpar hwait using 1
    · simp only [Machine.modify, Machine.mk.injEq, and_true]
      funext p
      by_cases hp : p = pid
      · subst hp
        by_cases hp' : p = parent
        · subst hp'; simp [exitHanging]
        · simp [exitHanging, hp']
      · by_cases hp' : p = parent
        · subst hp'; simp [exitHanging, hp]
        · simp [exitHanging, hp, hp']
    · exact congrArg (fun s => MmPc.exitScan s 0) hsrc

theorem doWait_outcome (htype : mmType img k = WAIT) (h : doWait img k = .ok (k', pc')) :
    MmOutcome img k .dispatch k' pc' := by
  unfold doWait at h
  cases hhang : hangingChild k.procTable (mmSource img k) with
  | some child =>
    simp only [hhang, Except.ok.injEq, Prod.mk.injEq] at h
    obtain ⟨rfl, rfl⟩ := h
    exact .waitHanging child htype hhang
  | none =>
    simp only [hhang] at h
    split_ifs at h with hchild
    · simp only [bind_eq_ok, Except.ok.injEq, Prod.mk.injEq] at h
      obtain ⟨pid, hpid, rfl, rfl⟩ := h
      have hsrc : mmSource img k = proc2pid pid := slot_eq_ok.mp hpid
      rw [hsrc] at hhang hchild
      convert MmOutcome.waitChildren pid htype hsrc hhang hchild using 1
      simp only [Machine.modify, Machine.mk.injEq, and_true]
      funext p
      by_cases hp : p = pid
      · subst hp; simp [setWaiting]
      · simp [setWaiting, hp]
    · simp only [Except.ok.injEq, Prod.mk.injEq] at h
      obtain ⟨rfl, rfl⟩ := h
      exact .waitChildless htype hchild

theorem mmDispatch_outcome {eax : BitVec 32} (h : mmDispatch img eax k = .ok (k', pc')) :
    MmOutcome img k .dispatch k' pc' := by
  simp only [mmDispatch] at h
  split_ifs at h with hfork hexit hwait hexec
  · simp only [bind_eq_ok] at h
    obtain ⟨⟨k₁, r⟩, hf, h⟩ := h
    rcases doFork_outcome hfork hf with ⟨rfl, hout⟩ | ⟨child, rfl, hout⟩
    · simp only [Except.ok.injEq, Prod.mk.injEq] at h
      obtain ⟨rfl, rfl⟩ := h
      exact hout
    · simp only [Except.ok.injEq, Prod.mk.injEq] at h
      obtain ⟨rfl, rfl⟩ := h
      exact hout
  · exact doExit_outcome hexit h
  · exact doWait_outcome hwait h
  · simp only [bind_eq_ok, Except.ok.injEq, Prod.mk.injEq] at h
    obtain ⟨k₁, he, rfl, rfl⟩ := h
    exact doExecl_outcome eax hexec he

/-- Every step of `task_mm` that returns. -/
theorem mmStep_outcome {eax : BitVec 32} {pc : MmPc} (h : mmStep img eax k pc = .ok (k', pc')) :
    MmOutcome img k pc k' pc' := by
  cases pc with
  | receive =>
    simp only [mmStep, bind_eq_ok, Except.ok.injEq, Prod.mk.injEq] at h
    obtain ⟨k₁, hrecv, rfl, rfl⟩ := h
    rcases sysSendrec_outcome hrecv with ⟨_, hf, _⟩ | ⟨_, _, hout⟩
    · exact absurd hf (by decide)
    · exact .receive hout
  | dispatch => exact mmDispatch_outcome h
  | forkSend src child =>
    simp only [mmStep, bind_eq_ok, Except.ok.injEq, Prod.mk.injEq] at h
    obtain ⟨k₁, hsend, rfl, rfl⟩ := h
    obtain ⟨d, hd, hsent⟩ := mmSend_sent hsend
    obtain rfl := proc2pid_inj.mp hd
    exact .forkSend src child hsent
  | cleanupSend proc ret =>
    simp only [mmStep, cleanupSend, bind_eq_ok, Except.ok.injEq, Prod.mk.injEq] at h
    obtain ⟨k₁, hsend, rfl, rfl⟩ := h
    obtain ⟨d, hd, hsent⟩ := mmSend_sent hsend
    exact .cleanupSend proc d ret hd hsent
  | cleanupFree proc ret =>
    have htable : Function.update k.procTable proc
        { k.procTable proc with pFlags := FREE_SLOT } = freeSlot k.procTable proc := by
      funext p
      by_cases hp : p = proc
      · subst hp; simp [freeSlot]
      · simp [freeSlot, hp]
    have hout : MmOutcome img k _ _ _ := .cleanupFree proc ret
    cases ret with
    | exit pid =>
      simp only [mmStep, Machine.modify, htable, Except.ok.injEq, Prod.mk.injEq] at h
      obtain ⟨rfl, rfl⟩ := h
      exact hout
    | scan pid i =>
      simp only [mmStep, Machine.modify, htable, Except.ok.injEq, Prod.mk.injEq] at h
      obtain ⟨rfl, rfl⟩ := h
      exact hout
    | wait =>
      simp only [mmStep, Machine.modify, htable, Except.ok.injEq, Prod.mk.injEq] at h
      obtain ⟨rfl, rfl⟩ := h
      exact hout
  | exitScan pid i =>
    simp only [mmStep] at h
    cases hfind : exitScanFind k.procTable pid i with
    | none =>
      simp only [hfind, Except.ok.injEq, Prod.mk.injEq] at h
      obtain ⟨rfl, rfl⟩ := h
      exact .scanDone pid i hfind
    | some j =>
      simp only [hfind, Except.ok.injEq, Prod.mk.injEq] at h
      obtain ⟨rfl, rfl⟩ := h
      convert MmOutcome.scanFound pid i j hfind using 1
      simp only [Machine.modify, Machine.mk.injEq, and_true]
      funext p
      by_cases hp : p = INIT
      · subst hp; simp [clearWaiting]
      · simp [clearWaiting, hp]
  | waitNone pid =>
    simp only [mmStep, bind_eq_ok, Except.ok.injEq, Prod.mk.injEq] at h
    obtain ⟨k₁, hsend, rfl, rfl⟩ := h
    obtain ⟨d, rfl, hsent⟩ := mmSend_sent hsend
    exact .waitNone d hsent
  | reply src retval =>
    simp only [mmStep, bind_eq_ok, Except.ok.injEq, Prod.mk.injEq] at h
    obtain ⟨k₁, hsend, rfl, rfl⟩ := h
    obtain ⟨d, rfl, hsent⟩ := mmSend_sent hsend
    exact .reply d retval hsent

end Inversion

/-! ## The requests -/

section Requests

variable {img : MmImage} {k k' : Machine} {pc' : MmPc} {p : Pid}

theorem MmOutcome.wait_cases (h : MmOutcome img k .dispatch k' pc') (htype : mmType img k = WAIT)
    (hp : mmSource img k = proc2pid p) :
    (∃ child, hangingChild k.procTable (proc2pid p) = some child ∧ k' = k ∧
      pc' = .cleanupSend child .wait) ∨
    (hangingChild k.procTable (proc2pid p) = none ∧
      (∃ j, (k.procTable j).pParent = proc2pid p) ∧
      k' = { k with procTable := setWaiting k.procTable p } ∧ pc' = .receive) ∨
    ((∀ j, (k.procTable j).pParent ≠ proc2pid p) ∧ k' = k ∧ pc' = .waitNone (proc2pid p)) := by
  cases h with
  | waitHanging child _ hchild =>
    rw [hp] at hchild
    exact .inl ⟨child, hchild, rfl, rfl⟩
  | waitChildren pid _ hpid hnone hchild =>
    obtain rfl := proc2pid_inj.mp (hpid.symm.trans hp)
    exact .inr (.inl ⟨hnone, hchild, rfl, rfl⟩)
  | waitChildless _ hchild =>
    rw [hp] at hchild ⊢
    exact .inr (.inr ⟨not_exists.mp hchild, rfl, rfl⟩)
  | forkNone ht => exact absurd (ht.symm.trans htype) (by decide)
  | fork _ _ _ ht => exact absurd (ht.symm.trans htype) (by decide)
  | exitWaited _ _ ht => exact absurd (ht.symm.trans htype) (by decide)
  | exitHanging _ _ ht => exact absurd (ht.symm.trans htype) (by decide)
  | exec _ _ _ _ _ ht => exact absurd (ht.symm.trans htype) (by decide)

theorem MmOutcome.exit_cases (h : MmOutcome img k .dispatch k' pc') (htype : mmType img k = EXIT)
    (hp : mmSource img k = proc2pid p) :
    ∃ parent, (k.procTable p).pParent = proc2pid parent ∧
      (((k.procTable parent).pFlags &&& WAITING ≠ 0 ∧
        k' = { k with procTable := SimpleOs.exitWaited k.procTable p parent (mmStatus img k) } ∧
        pc' = .cleanupSend p (.exit (proc2pid p))) ∨
      (¬ (k.procTable parent).pFlags &&& WAITING ≠ 0 ∧
        k' = { k with procTable := SimpleOs.exitHanging k.procTable p parent (mmStatus img k) } ∧
        pc' = .exitScan (proc2pid p) 0)) := by
  cases h with
  | exitWaited pid parent _ hpid hparent hwait =>
    obtain rfl := proc2pid_inj.mp (hpid.symm.trans hp)
    exact ⟨parent, hparent, .inl ⟨hwait, rfl, rfl⟩⟩
  | exitHanging pid parent _ hpid hparent hwait =>
    obtain rfl := proc2pid_inj.mp (hpid.symm.trans hp)
    exact ⟨parent, hparent, .inr ⟨hwait, rfl, rfl⟩⟩
  | forkNone ht => exact absurd (ht.symm.trans htype) (by decide)
  | fork _ _ _ ht => exact absurd (ht.symm.trans htype) (by decide)
  | waitHanging _ ht => exact absurd (ht.symm.trans htype) (by decide)
  | waitChildren _ ht => exact absurd (ht.symm.trans htype) (by decide)
  | waitChildless ht => exact absurd (ht.symm.trans htype) (by decide)
  | exec _ _ _ _ _ ht => exact absurd (ht.symm.trans htype) (by decide)

theorem MmOutcome.fork_cases {child : Pid} (h : MmOutcome img k .dispatch k' pc')
    (htype : mmType img k = FORK) (hp : mmSource img k = proc2pid p)
    (hfree : findFreeSlot k.procTable = some child) :
    ∃ used, k' = { k with
        procTable := forkTable k.procTable p child
        mem := forkMem img k p child
        memoryUsed := used } ∧ pc' = .forkSend (proc2pid p) child := by
  cases h with
  | forkNone _ hnone => exact absurd (hnone.symm.trans hfree) (by nofun)
  | fork pid child' used _ hpid hchild' _ =>
    obtain rfl := proc2pid_inj.mp (hpid.symm.trans hp)
    obtain rfl := Option.some.inj (hchild'.symm.trans hfree)
    exact ⟨used, rfl, rfl⟩
  | waitHanging _ ht => exact absurd (ht.symm.trans htype) (by decide)
  | waitChildren _ ht => exact absurd (ht.symm.trans htype) (by decide)
  | waitChildless ht => exact absurd (ht.symm.trans htype) (by decide)
  | exitWaited _ _ ht => exact absurd (ht.symm.trans htype) (by decide)
  | exitHanging _ _ ht => exact absurd (ht.symm.trans htype) (by decide)
  | exec _ _ _ _ _ ht => exact absurd (ht.symm.trans htype) (by decide)

end Requests

end SimpleOs
