import SimpleOs.Mm.IndexSafety
import SimpleOs.Mm.Sound

/-!
# Index safety of `do_exit`

`do_exit` uses `p_parent` as an index before any test. In a process that `do_fork`
has created it is the number of its parent; `init_proc` sets it to `NO_TASK`, which
is outside the table.

* `exitRun_index_safe_iff`: the EXIT of a process stays inside the table, to the end
  of the loop of `do_exit`, if and only if `do_fork` has created the process. The
  slots it frees are none of the native processes'.
-/

namespace SimpleOs

open ByteMem Transition

/-! ## The parents -/

/-- The slots that `do_fork` fills have a parent in the table. -/
def ParentsInTable (t : ProcTable) : Prop :=
  ∀ p, Forkable p → ∃ q, (t p).pParent = proc2pid q

theorem ParentsInTable.step {img : MmImage} {C : MmState → Prop} {s s' : MmState}
    (h : ParentsInTable s.k.procTable) (hs : MmSysStep img C s s') :
    ParentsInTable s'.k.procTable := by
  have hsame : SameSlots s.k.procTable s'.k.procTable → ParentsInTable s'.k.procTable := by
    intro hss p hp
    obtain ⟨q, hq⟩ := h p hp
    exact ⟨q, (hss.parent p).trans hq⟩
  cases hs with
  | user _ _ _ _ _ _ hcall => exact hsame (sysSendrec_sameSlots hcall)
  | task _ _ _ hstep =>
    rcases (mmStep_outcome hstep).slotChange with hss |
      ⟨pid, child, _, _, _, _, _, _, htable⟩ | ⟨proc, _, _, _, htable⟩
    · exact hsame hss
    · intro p hp
      dsimp only
      rw [htable]
      by_cases hpc : p = child
      · subst hpc
        rw [forkTable_self]
        exact ⟨pid, rfl⟩
      · rw [forkTable_of_ne _ _ hpc]
        exact h p hp
    · intro p hp
      dsimp only
      rw [htable]
      exact h p hp
  | other htable _ =>
    dsimp only
    rw [htable]
    exact h

/-- The slots lie in the zeroed BSS at boot. -/
theorem MmBooted.parentsInTable {img : Image} {s : MmState} (h : MmBooted img s) :
    ParentsInTable s.k.procTable := by
  intro p hp
  have htable : s.k.procTable = initProc img := h.1
  have hge : p.val ≥ NR_TASKS + NR_NATIVE_PROCS := hp
  refine ⟨0, ?_⟩
  rw [htable, initProc, initSlot, if_pos hge]
  rfl

/-! ## The handling of one EXIT -/

/-- The process whose `do_exit` goes on behind `cleanup`. -/
def Resume.exiting : Resume → Option ℤ
  | .exit pid => some pid
  | .scan pid _ => some pid
  | .wait => none

/-- In the middle of `do_exit`: what is still to do is about processes that `do_fork`
    has created. -/
def MmPc.ExitsForked : MmPc → Prop
  | .cleanupSend proc ret => Forkable proc ∧ ∃ q, ret.exiting = some (proc2pid q)
  | .cleanupFree proc ret => Forkable proc ∧ ∃ q, ret.exiting = some (proc2pid q)
  | .exitScan pid _ => ∃ q, pid = proc2pid q
  | _ => False

/-- `mm_msg` holds the EXIT of `p`. -/
structure ExitAsked (img : MmImage) (s : MmState) (p : Pid) : Prop where
  pc : s.pc = .dispatch
  type : mmType img s.k = EXIT
  source : mmSource img s.k = proc2pid p

section Steps

variable {img : MmImage} {k k' : Machine} {pc pc' : MmPc}

theorem exitScanFind_forkable (horphans : NativeOrphans k.procTable) {q j : Pid} {i : ℕ}
    (h : exitScanFind k.procTable (proc2pid q) i = some j) : Forkable j := by
  unfold exitScanFind at h
  have hfound := List.find?_some h
  rw [decide_eq_true_iff] at hfound
  obtain ⟨_, hparent, _⟩ := hfound
  by_contra hnot
  rw [horphans j hnot] at hparent
  exact proc2pid_ne_noTask q hparent.symm

/-- The steps in the middle of `do_exit`. -/
theorem MmOutcome.exitsForked (h : MmOutcome img k pc k' pc')
    (horphans : NativeOrphans k.procTable) (hpc : pc.ExitsForked) (hin : pc'.inExit = true) :
    pc'.ExitsForked := by
  cases h with
  | cleanupSend proc parent ret => exact hpc
  | cleanupFree proc ret =>
    obtain ⟨_, q, hq⟩ := hpc
    cases ret with
    | exit pid => exact ⟨q, Option.some.inj hq⟩
    | scan pid i => exact ⟨q, Option.some.inj hq⟩
    | wait => nomatch hq
  | scanFound pid i j hfind =>
    obtain ⟨q, rfl⟩ := hpc
    exact ⟨exitScanFind_forkable horphans hfind, q, rfl⟩
  | scanDone => nomatch hin
  | _ => exact hpc.elim

/-- The step that begins it. -/
theorem MmOutcome.exitBegins (h : MmOutcome img k .dispatch k' pc') {p : Pid} (hp : Forkable p)
    (htype : mmType img k = EXIT) (hsource : mmSource img k = proc2pid p) : pc'.ExitsForked := by
  obtain ⟨parent, _, ⟨_, _, rfl⟩ | ⟨_, _, rfl⟩⟩ := h.exit_cases htype hsource
  · exact ⟨hp, p, rfl⟩
  · exact ⟨p, rfl⟩

theorem cleanupSend_inRange (htargets : TargetsValid k.procTable) {proc parent : Pid}
    (hparent : (k.procTable proc).pParent = proc2pid parent) :
    InRange (cleanupSend img k proc) := by
  unfold cleanupSend mmSend
  refine sysSendrec_inRange ?_ (.inl ⟨parent, hparent⟩) _ _
  exact htargets

/-- In the middle of `do_exit` no access is outside the table. -/
theorem mmStep_inRange (htargets : TargetsValid k.procTable) (hparents : ParentsInTable k.procTable)
    (hpc : pc.ExitsForked) (eax : BitVec 32) : InRange (mmStep img eax k pc) := by
  cases pc with
  | cleanupSend proc ret =>
    obtain ⟨parent, hparent⟩ := hparents proc hpc.1
    exact (cleanupSend_inRange htargets hparent).bind fun _ _ => inRange_ok _
  | cleanupFree proc ret =>
    cases ret with
    | exit pid => exact inRange_ok _
    | scan pid i => exact inRange_ok _
    | wait => exact inRange_ok _
  | exitScan pid i =>
    rw [mmStep]
    cases exitScanFind k.procTable pid i with
    | some j => exact inRange_ok _
    | none => exact inRange_ok _
  | receive => exact hpc.elim
  | dispatch => exact hpc.elim
  | forkSend src child => exact hpc.elim
  | waitNone pid => exact hpc.elim
  | reply src retval => exact hpc.elim

/-- Nor at the beginning, if the parent is in the table. -/
theorem doExit_inRange {p parent : Pid} (hsource : mmSource img k = proc2pid p)
    (hparent : (k.procTable p).pParent = proc2pid parent) : InRange (doExit img k) := by
  unfold doExit
  dsimp only
  rw [hsource]
  refine (inRange_slot p).bind fun p' hp' => ?_
  obtain rfl := proc2pid_inj.mp (slot_eq_ok.mp hp')
  rw [hparent]
  refine (inRange_slot parent).bind fun parent' _ => ?_
  split_ifs
  · exact inRange_ok _
  · exact inRange_ok _

theorem slot_noTask : slot NO_TASK = .error (.badIndex NO_TASK) := by decide

theorem doExit_badIndex {p : Pid} (hsource : mmSource img k = proc2pid p)
    (hparent : (k.procTable p).pParent = NO_TASK) :
    doExit img k = .error (.badIndex NO_TASK) := by
  unfold doExit
  dsimp only
  simp only [hsource, slot_proc2pid, hparent, slot_noTask, Bind.bind, Except.bind]

theorem mmStep_exit (htype : mmType img k = EXIT) (eax : BitVec 32) :
    mmStep img eax k .dispatch = doExit img k := by
  unfold mmStep mmDispatch
  dsimp only
  rw [if_neg (by rw [htype]; decide), if_pos htype]

end Steps

/-! ## Whole runs -/

/-- What is known in every state. -/
structure ExitKnown (s : MmState) : Prop where
  sound : Sound s
  index : IndexInv s.k
  parents : ParentsInTable s.k.procTable

theorem ExitKnown.step {img : MmImage} {C : MmState → Prop} {s s' : MmState} (h : ExitKnown s)
    (hs : MmSysStep img C s s') : ExitKnown s' :=
  ⟨h.sound.step hs, hs.indexInv h.index, h.parents.step hs⟩

theorem MmBooted.exitKnown {img : Image} {s : MmState} (h : MmBooted img s)
    (hk : s.k.kReenter = 0) : ExitKnown s :=
  ⟨h.sound, h.1.quiescent.indexInv hk, h.parentsInTable⟩

/-- The slots of the tasks and the native processes are in use. -/
theorem ExitKnown.free {s : MmState} (h : ExitKnown s) {child : Pid}
    (hfree : findFreeSlot s.k.procTable = some child) :
    NR_TASKS + NR_NATIVE_PROCS ≤ child.val := by
  have hflags := List.find?_some hfree
  rw [beq_iff_eq] at hflags
  by_contra hlt
  exact not_occupied_of_free hflags (h.sound.table.native child hlt)

/-- The state after boot, outside an interrupt handler. -/
def MmStarted (img : Image) (s : MmState) : Prop := MmBooted img s ∧ s.k.kReenter = 0

/-- One step of the handling of an EXIT, from its beginning to the end of the loop. -/
def ExitStep (img : MmImage) (C : MmState → Prop) (s s' : MmState) : Prop :=
  MmSysStep img C s s' ∧ s'.pc.inExit = true

section Runs

variable {img : Image} {mimg : MmImage} {C : MmState → Prop} {s s' : MmState}

theorem ExitKnown.steps (h : ExitKnown s) (hrun : Relation.ReflTransGen (MmSysStep mimg C) s s') :
    ExitKnown s' := by
  induction hrun with
  | refl => exact h
  | tail _ hstep ih => exact ih.step hstep

/-- The handling of the EXIT of a process that `do_fork` has created. -/
theorem ExitAsked.handled {p : Pid} (h : ExitAsked mimg s p) (hknown : ExitKnown s)
    (hp : Forkable p) (hrun : Relation.ReflTransGen (ExitStep mimg C) s s') :
    ExitKnown s' ∧ (s' = s ∨ s'.pc.ExitsForked) := by
  induction hrun with
  | refl => exact ⟨hknown, .inl rfl⟩
  | @tail s₁ s₂ _ hstep ih =>
    obtain ⟨hknown₁, hwhere⟩ := ih
    obtain ⟨hsys, hin⟩ := hstep
    refine ⟨hknown₁.step hsys, .inr ?_⟩
    have hdispatch : s₁.pc.inExit = true → s₁.pc.ExitsForked := by
      intro hpc
      rcases hwhere with rfl | hforked
      · rw [h.pc] at hpc
        nomatch hpc
      · exact hforked
    cases hsys with
    | user => exact hdispatch hin
    | other => exact hdispatch hin
    | task eax _ _ hstep =>
      have hout := mmStep_outcome hstep
      rcases hwhere with rfl | hforked
      · rw [h.pc] at hout
        exact hout.exitBegins hp h.type h.source
      · exact hout.exitsForked hknown₁.sound.table.orphans hforked hin

/-- In every state of every run in which `task_mm` handles the EXIT of `p`: it stays inside
    the table from there to the end of the loop of `do_exit`, and `do_fork` finds no free
    slot of a native process afterwards, if and only if `do_fork` has created `p`. -/
theorem exitRun_index_safe_iff
    (h : Reachable (MmStarted img) (MmSysStep mimg C) s) {p : Pid}
    (hexit : ExitAsked mimg s p) :
    ((∀ s', Relation.ReflTransGen (ExitStep mimg C) s s' →
        ∀ eax, InRange (mmStep mimg eax s'.k s'.pc)) ∧
      ∀ s' child, Relation.ReflTransGen (MmSysStep mimg C) s s' →
        findFreeSlot s'.k.procTable = some child → NR_TASKS + NR_NATIVE_PROCS ≤ child.val) ↔
      Forkable p := by
  have hknown : ExitKnown s :=
    h.invariant (fun _ h0 => h0.1.exitKnown h0.2) fun _ _ hI hs => hI.step hs
  constructor
  · intro ⟨hsafe, _⟩
    by_contra hnative
    have hbad := hsafe s .refl 0 NO_TASK
    rw [hexit.pc, mmStep_exit hexit.type] at hbad
    exact hbad (doExit_badIndex hexit.source (hknown.sound.table.orphans p hnative))
  · intro hp
    refine ⟨fun s' hrun eax => ?_, fun s' child hrun hfree => (hknown.steps hrun).free hfree⟩
    obtain ⟨hknown', hwhere⟩ := hexit.handled hknown hp hrun
    rcases hwhere with rfl | hforked
    · obtain ⟨parent, hparent⟩ := hknown.parents p hp
      rw [hexit.pc, mmStep_exit hexit.type]
      exact doExit_inRange hexit.source hparent
    · exact mmStep_inRange hknown'.index.targets hknown'.parents hforked eax

end Runs

/-- INIT forks, waits, and its child asks to exit. -/
def childExits : List MmCall := forkWaitExit.take 13

theorem exitRun_index_safe_iff_child : ∃ s : MmState, ExitAsked sampleMmImage s 7 ∧
    (((∀ s', Relation.ReflTransGen (ExitStep sampleMmImage fun _ => True) s s' →
        ∀ eax, InRange (mmStep sampleMmImage eax s'.k s'.pc)) ∧
      ∀ s' child, Relation.ReflTransGen (MmSysStep sampleMmImage fun _ => True) s s' →
        findFreeSlot s'.k.procTable = some child → NR_TASKS + NR_NATIVE_PROCS ≤ child.val) ↔
      Forkable 7) := by
  have hboot : MmStarted sampleImage ⟨requestMachine 3, .receive⟩ :=
    ⟨requestMachine_booted 3, rfl⟩
  obtain ⟨s, hs, hpc, htype, hsource⟩ := MmState.exists_reachable sampleMmImage
    hboot childExits
    (fun s => s.pc = .dispatch ∧ mmType sampleMmImage s.k = EXIT ∧
      mmSource sampleMmImage s.k = proc2pid 7) (by decide)
  exact ⟨s, ⟨hpc, htype, hsource⟩, exitRun_index_safe_iff hs ⟨hpc, htype, hsource⟩⟩

/-- INIT asks to exit. -/
theorem init_exit_leaves_table : ∃ s : MmState,
    Reachable (MmStarted sampleImage) (MmSysStep sampleMmImage fun _ => True) s ∧
      ExitAsked sampleMmImage s INIT ∧ Occupied (s.k.procTable INIT) ∧
      mmStep sampleMmImage 0 s.k s.pc = .error (.badIndex NO_TASK) := by
  have hboot : MmStarted sampleImage ⟨requestMachine 5, .receive⟩ :=
    ⟨requestMachine_booted 5, rfl⟩
  obtain ⟨s, hs, hpc, htype, hsource, hlive, hparent⟩ := MmState.exists_reachable sampleMmImage
    hboot [.task, .user INIT SEND 2 0x1000]
    (fun s => s.pc = .dispatch ∧ mmType sampleMmImage s.k = EXIT ∧
      mmSource sampleMmImage s.k = proc2pid INIT ∧ Occupied (s.k.procTable INIT) ∧
      (s.k.procTable INIT).pParent = NO_TASK) (by decide)
  refine ⟨s, hs, ⟨hpc, htype, hsource⟩, hlive, ?_⟩
  rw [hpc, mmStep_exit htype, doExit_badIndex hsource hparent]

end SimpleOs
