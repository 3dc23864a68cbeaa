import SimpleOs.Mm.Slots

/-!
# Parents and children

`p_parent` is written by `init_proc` and `do_fork` and by nobody else: `cleanup`
leaves it in the slot it frees, and the line of `do_exit` that would give the
children of the exiting process to INIT (mm/mm.c:240) is a comparison. `do_wait`
looks at nothing but `p_parent`, so a slot that has been freed still counts.

The observer follows a run of `MmSysStep` and keeps, for every WAIT handled and
every `do_exit` that has returned, the tables before and after.

* `waitRun_exact`: when the answer of `do_wait` is the right one.
* `exitRun_adopted`: no process is left with a dead parent in a run in which
  only processes without children exit or are freed.
-/

namespace SimpleOs

open ByteMem Transition

/-! ## Children -/

/-- The slot `j` is in use, and its process is a child of `p`. -/
def Child (t : ProcTable) (p j : Pid) : Prop := Occupied (t j) ∧ (t j).pParent = proc2pid p

instance (t : ProcTable) (p j : Pid) : Decidable (Child t p j) :=
  inferInstanceAs (Decidable (_ ∧ _))

/-! ## The observer -/

/-- A WAIT that has been handled: its caller, the processes that had exited, the
    table before and after, and where `do_wait` went. -/
structure WaitHandled where
  caller : Pid
  gone : Pid → Bool
  before : ProcTable
  after : ProcTable
  next : MmPc

/-- A call of `do_exit`: the process, those that had exited before, and the
    table before. -/
structure ExitStarted where
  pid : Pid
  gone : Pid → Bool
  before : ProcTable

/-- A call that has returned, with the table then. -/
structure ExitHandled extends ExitStarted where
  after : ProcTable

/-- The system, and what the observer has written down. -/
structure FamilyState where
  sys : MmState
  /-- The processes whose EXIT has been handled since their slot was filled. -/
  gone : Pid → Bool
  /-- The call of `do_exit` that has not returned. -/
  exiting : Option ExitStarted
  waits : List WaitHandled
  exits : List ExitHandled

/-- `task_mm` has handled the request in `mm_msg`. -/
def FamilyState.noteDispatch (img : MmImage) (f : FamilyState) (s' : MmState) : FamilyState :=
  let k := f.sys.k
  match slot (mmSource img k) with
  | .error _ => f
  | .ok p =>
    if mmType img k = FORK then
      match s'.pc with
      | .forkSend _ child => { f with gone := Function.update f.gone child false }
      | _ => f
    else if mmType img k = EXIT then
      { f with
        gone := Function.update f.gone p true
        exiting := some ⟨p, f.gone, k.procTable⟩ }
    else if mmType img k = WAIT then
      { f with waits := f.waits ++ [⟨p, f.gone, k.procTable, s'.k.procTable, s'.pc⟩] }
    else f

/-- `do_exit` has gone on with its loop, or returned. -/
def FamilyState.noteScan (f : FamilyState) (s' : MmState) : FamilyState :=
  match s'.pc, f.exiting with
  | .receive, some e => { f with exiting := none, exits := f.exits ++ [⟨e, s'.k.procTable⟩] }
  | _, _ => f

/-- What the observer writes down at a step to `s'`. Every step of `task_mm`
    changes its point, and no other step does. -/
def FamilyState.note (img : MmImage) (f : FamilyState) (s' : MmState) : FamilyState :=
  if s'.pc = f.sys.pc then f
  else
    match f.sys.pc with
    | .dispatch => f.noteDispatch img s'
    | .exitScan _ _ => f.noteScan s'
    | _ => f

def FamilyState.observe (img : MmImage) (f : FamilyState) (s' : MmState) : FamilyState :=
  { f.note img s' with sys := s' }

/-- A step of the system, under the eyes of the observer. -/
inductive FamilyStep (img : MmImage) (C : MmState → Prop) (f : FamilyState) : FamilyState → Prop
  | mk {s' : MmState} (h : MmSysStep img C f.sys s') : FamilyStep img C f (f.observe img s')

/-- The booted machine. -/
structure FamilyBooted (img : Image) (f : FamilyState) : Prop where
  sys : MmBooted img f.sys
  gone : f.gone = fun _ => false
  exiting : f.exiting = none
  waits : f.waits = []
  exits : f.exits = []

/-! ## The points of `task_mm` -/

/-- No step of `task_mm` ends at the point it began at. -/
theorem MmOutcome.pc_ne {img : MmImage} {k k' : Machine} {pc pc' : MmPc}
    (h : MmOutcome img k pc k' pc') : pc' ≠ pc := by
  cases h with
  | cleanupFree proc ret => cases ret <;> nofun
  | _ => nofun

theorem MmSysStep.task_of_pc_ne {img : MmImage} {C : MmState → Prop} {s s' : MmState}
    (h : MmSysStep img C s s') (hpc : s'.pc ≠ s.pc) :
    C s ∧ MmOutcome img s.k s.pc s'.k s'.pc := by
  cases h with
  | user => exact absurd rfl hpc
  | task eax hC _ hstep => exact ⟨hC, mmStep_outcome hstep⟩
  | other => exact absurd rfl hpc

/-! ## What is written down -/

section

variable {img : MmImage} {f : FamilyState} {s' : MmState}

/-- A WAIT in the record is an old one, or the one just handled. -/
theorem FamilyState.mem_note_waits {w : WaitHandled} (h : w ∈ (f.note img s').waits) :
    w ∈ f.waits ∨ s'.pc ≠ f.sys.pc ∧ f.sys.pc = .dispatch ∧ mmType img f.sys.k = WAIT ∧
      mmSource img f.sys.k = proc2pid w.caller ∧
      w = ⟨w.caller, f.gone, f.sys.k.procTable, s'.k.procTable, s'.pc⟩ := by
  unfold note at h
  split_ifs at h with hpc
  · exact .inl h
  · split at h
    · rename_i hdispatch
      unfold noteDispatch at h
      dsimp only at h
      split at h
      · exact .inl h
      · rename_i p hp
        split_ifs at h with hfork hexit hwait
        · split at h <;> exact .inl h
        · exact .inl h
        · rcases List.mem_append.mp h with h | h
          · exact .inl h
          · have hw := List.mem_singleton.mp h
            subst hw
            exact .inr ⟨hpc, hdispatch, hwait, slot_eq_ok.mp hp, rfl⟩
        · exact .inl h
    · unfold noteScan at h
      split at h <;> exact .inl h
    · exact .inl h

/-- The call of `do_exit` under way is the one that was, or has just begun. -/
theorem FamilyState.note_exiting {e : ExitStarted} (h : (f.note img s').exiting = some e) :
    (f.exiting = some e ∧ ∀ pid i, f.sys.pc = .exitScan pid i → s'.pc ≠ .receive) ∨
    (s'.pc ≠ f.sys.pc ∧ f.sys.pc = .dispatch ∧ mmType img f.sys.k = EXIT ∧
      mmSource img f.sys.k = proc2pid e.pid ∧ e = ⟨e.pid, f.gone, f.sys.k.procTable⟩) := by
  unfold note at h
  split_ifs at h with hpc
  · refine .inl ⟨h, fun pid i hscan hrecv => ?_⟩
    rw [hpc, hscan] at hrecv
    cases hrecv
  · split at h
    · rename_i hdispatch
      have hold : f.exiting = some e →
          f.exiting = some e ∧ ∀ pid i, f.sys.pc = .exitScan pid i → s'.pc ≠ .receive :=
        fun he => ⟨he, fun pid i hscan => nomatch hdispatch.symm.trans hscan⟩
      unfold noteDispatch at h
      dsimp only at h
      split at h
      · exact .inl (hold h)
      · rename_i p hp
        split_ifs at h with hfork hexit hwait
        · split at h <;> exact .inl (hold h)
        · have he := Option.some.inj h
          subst he
          exact .inr ⟨hpc, hdispatch, hexit, slot_eq_ok.mp hp, rfl⟩
        · exact .inl (hold h)
        · exact .inl (hold h)
    · unfold noteScan at h
      split at h
      · cases h
      · rename_i hnot
        exact .inl ⟨h, fun _ _ _ hrecv => hnot e hrecv h⟩
    · rename_i hdispatch hscan
      exact .inl ⟨h, fun pid i hpc' => absurd hpc' (hscan pid i)⟩

/-- A `do_exit` in the record is an old one, or the one that has just returned. -/
theorem FamilyState.mem_note_exits {e : ExitHandled} (h : e ∈ (f.note img s').exits) :
    e ∈ f.exits ∨ f.exiting = some e.toExitStarted ∧ e.after = s'.k.procTable := by
  unfold note at h
  split_ifs at h with hpc
  · exact .inl h
  · split at h
    · unfold noteDispatch at h
      dsimp only at h
      split at h
      · exact .inl h
      · split_ifs at h
        · split at h <;> exact .inl h
        · exact .inl h
        · exact .inl h
        · exact .inl h
    · unfold noteScan at h
      split at h
      · rename_i he
        rcases List.mem_append.mp h with h | h
        · exact .inl h
        · have heq := List.mem_singleton.mp h
          subst heq
          exact .inr ⟨he, rfl⟩
      · exact .inl h
    · exact .inl h

end

/-! ## Concrete runs -/

/-- The run written as a list, if every step can be made and meets `C`. -/
def FamilyState.run (img : MmImage) (C : MmState → Prop) [DecidablePred C] :
    List MmCall → FamilyState → Option FamilyState
  | [], f => some f
  | c :: l, f =>
    if C f.sys then (f.sys.perform img c).bind fun s' => FamilyState.run img C l (f.observe img s')
    else none

theorem FamilyState.run_reachable {img : MmImage} {C : MmState → Prop} [DecidablePred C]
    {init : FamilyState → Prop} : ∀ (l : List MmCall) {f f' : FamilyState},
      f.run img C l = some f' → Reachable init (FamilyStep img C) f →
      Reachable init (FamilyStep img C) f' := by
  intro l
  induction l with
  | nil =>
    intro f f' h hf
    obtain rfl := Option.some.inj h
    exact hf
  | cons c l ih =>
    intro f f' h hf
    unfold FamilyState.run at h
    split_ifs at h with hC
    obtain ⟨s', hs', h⟩ := Option.bind_eq_some_iff.mp h
    exact ih h (.step hf ⟨(MmState.perform_step hC hs').sys⟩)

/-- The booted machine with a FORK request at `0x1000`. -/
def forkFamily : FamilyState := ⟨⟨requestMachine 3, .receive⟩, fun _ => false, none, [], []⟩

theorem forkFamily_booted : FamilyBooted sampleImage forkFamily :=
  ⟨requestMachine_booted 3, rfl, rfl, rfl, rfl⟩

/-- A state with the property `P` at the end of a run. -/
theorem FamilyState.exists_reachable (C : MmState → Prop) [DecidablePred C] (l : List MmCall)
    (P : FamilyState → Prop) [DecidablePred P]
    (h : ((forkFamily.run sampleMmImage C l).any fun f => decide (P f)) = true) :
    ∃ f, Reachable (FamilyBooted sampleImage) (FamilyStep sampleMmImage C) f ∧ P f := by
  cases hrun : forkFamily.run sampleMmImage C l with
  | none =>
    rw [hrun] at h
    cases h
  | some f =>
    rw [hrun] at h
    exact ⟨f, FamilyState.run_reachable l hrun (.init forkFamily_booted), of_decide_eq_true h⟩

/-! ## Waits -/

/-- The caller has a child that has not exited. -/
def WaitHandled.LiveChild (w : WaitHandled) : Prop :=
  ∃ j, Child w.before w.caller j ∧ w.gone j = false

/-- `do_wait` has put the caller to sleep. -/
def WaitHandled.SetsWaiting (w : WaitHandled) : Prop :=
  w.next = .receive ∧ (w.after w.caller).pFlags &&& WAITING ≠ 0

/-- The answer is `NO_TASK` exactly when the caller has no child, and the caller
    sleeps only when it has a live one. -/
structure WaitHandled.Exact (w : WaitHandled) : Prop where
  noTask : w.next = .waitNone (proc2pid w.caller) ↔ ∀ j, ¬ Child w.before w.caller j
  waiting : w.SetsWaiting → w.LiveChild

/-- No slot, in use or not, names the caller as its parent; or the caller has a
    live child; or it has a child, and a slot that names it is marked HANGING. -/
def WaitHandled.Known (w : WaitHandled) : Prop :=
  (∀ j, (w.before j).pParent ≠ proc2pid w.caller) ∨ w.LiveChild ∨
    (hangingChild w.before (proc2pid w.caller)).isSome ∧ ∃ j, Child w.before w.caller j

/-- What the answer of `do_wait` depends on. -/
theorem MmOutcome.wait_exact {img : MmImage} {k k' : Machine} {pc' : MmPc} {p : Pid}
    (h : MmOutcome img k .dispatch k' pc') (htype : mmType img k = WAIT)
    (hp : mmSource img k = proc2pid p) (gone : Pid → Bool) :
    WaitHandled.Exact ⟨p, gone, k.procTable, k'.procTable, pc'⟩ ↔
      WaitHandled.Known ⟨p, gone, k.procTable, k'.procTable, pc'⟩ := by
  rcases h.wait_cases htype hp with ⟨child, hchild, rfl, rfl⟩ | ⟨hnone, hstale, rfl, rfl⟩ |
    ⟨hno, rfl, rfl⟩
  · -- the answer is in hand, so the caller must have some child
    have hparent : (k'.procTable child).pParent = proc2pid p := by
      have hfind := List.find?_some hchild
      simp only [decide_eq_true_eq] at hfind
      exact hfind.1
    constructor
    · intro he
      have hchildren : ¬ ∀ j, ¬ Child k'.procTable p j :=
        fun hc => absurd (he.noTask.mpr hc) (by simp)
      refine .inr (.inr ⟨?_, not_forall_not.mp hchildren⟩)
      dsimp only
      rw [hchild]
      rfl
    · intro hknown
      have hchildren : ∃ j, Child k'.procTable p j := by
        rcases hknown with hno | ⟨j, hj, _⟩ | ⟨_, hj⟩
        · exact absurd hparent (hno child)
        · exact ⟨j, hj⟩
        · exact hj
      exact ⟨⟨by simp, fun hc => absurd hchildren (not_exists.mpr hc)⟩,
        fun hset => absurd hset.1 (by simp)⟩
  · have hbit : (setWaiting k.procTable p p).pFlags &&& WAITING ≠ 0 := by
      rw [setWaiting, if_pos rfl]
      exact (and_flag_ne_zero ((k.procTable p).pFlags ||| WAITING) 3 (by omega)).mpr (by simp)
    constructor
    · intro he
      exact .inr (.inl (he.waiting ⟨rfl, hbit⟩))
    · intro hknown
      have hlive : ∃ j, Child k.procTable p j ∧ gone j = false := by
        rcases hknown with hno | hlive | ⟨hhang, _⟩
        · obtain ⟨j, hj⟩ := hstale
          exact absurd hj (hno j)
        · exact hlive
        · dsimp only at hhang
          rw [hnone] at hhang
          cases hhang
      obtain ⟨j, hj, _⟩ := id hlive
      exact ⟨⟨by simp, fun hc => absurd hj (hc j)⟩, fun _ => hlive⟩
  · have hnochild : ∀ j, ¬ Child k'.procTable p j := fun j hj => hno j hj.2
    exact ⟨fun _ => .inl hno, fun _ => ⟨⟨fun _ => hnochild, fun _ => rfl⟩,
      fun hset => absurd hset.1 (by simp)⟩⟩

/-- Whenever `task_mm` is about to answer `NO_TASK`, its next step sends `p` a
    message that says so. -/
theorem mmStep_waitNone {img : MmImage} {eax : BitVec 32} {k k' : Machine} {pc' : MmPc} {p : Pid}
    (h : mmStep img eax k (.waitNone (proc2pid p)) = .ok (k', pc')) :
    MmSent (waitMessage img k) p img.waitMsg k' ∧
      (readMessage (waitMessage img k).mem img.waitMsg).pid = BitVec.ofInt 32 NO_TASK := by
  generalize hpc : MmPc.waitNone (proc2pid p) = pc at h
  cases mmStep_outcome h with
  | waitNone pid hsent =>
    obtain rfl := proc2pid_inj.mp (MmPc.waitNone.inj hpc)
    exact ⟨hsent, readWord_writeWord _ _ _⟩
  | _ => nomatch hpc

/-- For every WAIT handled in any run: the answer is right exactly when the state
    it was handled in is one that `do_wait` can read. The answer goes out with the
    next step of `task_mm`. -/
theorem waitRun_exact {img : Image} {mimg : MmImage} {f : FamilyState}
    (h : Reachable (FamilyBooted img) (FamilyStep mimg fun _ => True) f) :
    (∀ w ∈ f.waits, w.Exact ↔ w.Known) ∧
    ∀ p eax k' pc', f.sys.pc = .waitNone (proc2pid p) →
      mmStep mimg eax f.sys.k f.sys.pc = .ok (k', pc') →
      MmSent (waitMessage mimg f.sys.k) p mimg.waitMsg k' ∧
        (readMessage (waitMessage mimg f.sys.k).mem mimg.waitMsg).pid =
          BitVec.ofInt 32 NO_TASK := by
  refine ⟨?_, fun p eax k' pc' hpc hstep => mmStep_waitNone (hpc ▸ hstep)⟩
  refine h.invariant (I := fun f => ∀ w ∈ f.waits, w.Exact ↔ w.Known) (fun f h0 w hw => ?_)
    fun f f' hI hs w hw => ?_
  · rw [h0.waits] at hw
    cases hw
  · obtain ⟨hstep⟩ := hs
    rcases FamilyState.mem_note_waits hw with hold | ⟨hpc, hdispatch, htype, hp, heq⟩
    · exact hI w hold
    · have hout := (hstep.task_of_pc_ne hpc).2
      rw [hdispatch] at hout
      rw [heq]
      exact hout.wait_exact htype hp f.gone

/-- INIT waits once more. -/
def waitAgain : List MmCall :=
  forkWaitExit ++ [.write waitExitMem, .task, .user INIT SEND 2 0x1000, .task]

/-- The first WAIT of INIT, which has a live child, is exact. -/
theorem waitRun_exact_first :
    ∃ f : FamilyState, ∃ w ∈ f.waits, w.caller = INIT ∧ w.LiveChild ∧ w.Exact := by
  obtain ⟨f, hf, w, hw, hcaller, hlive⟩ := FamilyState.exists_reachable (fun _ => True) forkWaitExit
    (fun f => ∃ w ∈ f.waits, w.caller = INIT ∧ Child w.before INIT 7 ∧ w.gone 7 = false)
    (by decide +kernel)
  have hlive' : w.LiveChild := ⟨7, by rw [hcaller]; exact hlive⟩
  exact ⟨f, w, hw, hcaller, hlive', ((waitRun_exact hf).1 w hw).mpr (.inr (.inl hlive'))⟩

/-- The second puts INIT to sleep, although it has no child left. -/
theorem reaped_child_counts :
    ∃ f, Reachable (FamilyBooted sampleImage) (FamilyStep sampleMmImage fun _ => True) f ∧
      ∃ w ∈ f.waits, w.caller = INIT ∧ (∀ j, ¬ Child w.before INIT j) ∧ w.SetsWaiting ∧
        ¬ w.Exact := by
  obtain ⟨f, hf, w, hw, hcaller, hnone, hnext, hbit⟩ :=
    FamilyState.exists_reachable (fun _ => True) waitAgain
      (fun f => ∃ w ∈ f.waits, w.caller = INIT ∧ (∀ j, ¬ Child w.before INIT j) ∧
        w.next = .receive ∧ (w.after w.caller).pFlags &&& WAITING ≠ 0) (by decide +kernel)
  have hset : w.SetsWaiting := ⟨hnext, hbit⟩
  refine ⟨f, hf, w, hw, hcaller, hnone, hset, fun he => ?_⟩
  obtain ⟨j, hj, _⟩ := he.waiting hset
  rw [hcaller] at hj
  exact hnone j hj

/-! ## Exits -/

/-- What the exit of a process has to leave behind: none of its children names it
    any more, they are children of INIT, and if INIT was waiting and one of them
    had exited, one has been reaped. -/
structure ExitHandled.Adopted (e : ExitHandled) : Prop where
  noneLeft : ∀ j, ¬ Child e.after e.pid j
  parent : ∀ j, Child e.before e.pid j → (e.after j).pParent = proc2pid INIT
  reaped : (e.before INIT).pFlags &&& WAITING ≠ 0 →
    (∃ j, Child e.before e.pid j ∧ e.gone j = true) →
    ∃ j, Child e.before e.pid j ∧ e.gone j = true ∧ ¬ Occupied (e.after j)

/-- The parent of every forked process is a process. -/
def ParentsLive (t : ProcTable) : Prop :=
  ∀ j, Forkable j → Occupied (t j) → ∃ q, (t j).pParent = proc2pid q ∧ Occupied (t q)

/-- The slot that the next step of `task_mm` frees. -/
def MmPc.freeing : MmPc → Option Pid
  | .cleanupFree proc _ => some proc
  | _ => none

/-- The condition on a step of `task_mm`: the process whose EXIT it handles, or
    whose slot it frees, has no children. -/
def OrphanSafe (img : MmImage) (s : MmState) : Prop :=
  (s.pc = .dispatch → mmType img s.k = EXIT → ∀ pid, mmSource img s.k = proc2pid pid →
    ∀ j, ¬ Child s.k.procTable pid j) ∧
  ∀ proc, s.pc.freeing = some proc → ∀ j, ¬ Child s.k.procTable proc j

instance (img : MmImage) (s : MmState) : Decidable (OrphanSafe img s) :=
  inferInstanceAs (Decidable (_ ∧ _))

/-! ### During `do_exit` -/

/-- `task_mm` is in `do_exit`. -/
def MmPc.inExit : MmPc → Bool
  | .cleanupSend _ (.exit _) => true
  | .cleanupSend _ (.scan _ _) => true
  | .cleanupFree _ (.exit _) => true
  | .cleanupFree _ (.scan _ _) => true
  | .exitScan _ _ => true
  | _ => false

/-- Slots have been freed, and nothing else has happened to them. -/
structure OnlyFreed (t t' : ProcTable) : Prop where
  parent : ∀ j, (t' j).pParent = (t j).pParent
  occupied : ∀ j, Occupied (t' j) → Occupied (t j)

theorem OnlyFreed.trans {t t' t'' : ProcTable} (h : OnlyFreed t t') (h' : OnlyFreed t' t'') :
    OnlyFreed t t'' :=
  ⟨fun j => (h'.parent j).trans (h.parent j), fun j hj => h.occupied j (h'.occupied j hj)⟩

theorem SameSlots.onlyFreed {t t' : ProcTable} (h : SameSlots t t') : OnlyFreed t t' :=
  ⟨h.parent, fun j => (h.occupied j).mp⟩

theorem onlyFreed_freeSlot (t : ProcTable) (proc : Pid) : OnlyFreed t (freeSlot t proc) :=
  ⟨fun _ => rfl, fun _ hj => (occupied_freeSlot.mp hj).2⟩

theorem OnlyFreed.child {t t' : ProcTable} {p j : Pid} (h : OnlyFreed t t') (hc : Child t' p j) :
    Child t p j :=
  ⟨h.occupied j hc.1, (h.parent j).symm.trans hc.2⟩

/-- A step that begins or goes on with `do_exit` fills no slot. -/
theorem MmOutcome.onlyFreed {img : MmImage} {k k' : Machine} {pc pc' : MmPc}
    (h : MmOutcome img k pc k' pc') (hpc : pc.inExit = true ∨ mmType img k = EXIT) :
    OnlyFreed k.procTable k'.procTable := by
  rcases h.slotChange with hsame | ⟨pid, child, hdispatch, _, htype, _⟩ | ⟨proc, ret, _, _, htable⟩
  · exact hsame.onlyFreed
  · rcases hpc with hpc | hexit
    · rw [hdispatch] at hpc
      cases hpc
    · exact absurd (htype.symm.trans hexit) (by decide)
  · rw [htable]
    exact onlyFreed_freeSlot _ proc

/-- `do_exit` goes on until its loop is done. -/
theorem MmOutcome.inExit {img : MmImage} {k k' : Machine} {pc pc' : MmPc}
    (h : MmOutcome img k pc k' pc') (hpc : pc.inExit = true) :
    pc'.inExit = true ∨ pc' = .receive ∧ ∃ pid i, pc = .exitScan pid i := by
  cases h with
  | cleanupSend proc parent ret =>
    cases ret with
    | exit pid => exact .inl rfl
    | scan pid i => exact .inl rfl
    | wait => cases hpc
  | cleanupFree proc ret =>
    cases ret with
    | exit pid => exact .inl rfl
    | scan pid i => exact .inl rfl
    | wait => cases hpc
  | scanFound pid i j => exact .inl rfl
  | scanDone pid i => exact .inr ⟨rfl, pid, i, rfl⟩
  | _ => cases hpc

/-- A step of the system during `do_exit`. -/
theorem MmSysStep.onlyFreed {img : MmImage} {C : MmState → Prop} {s s' : MmState}
    (h : MmSysStep img C s s') (hpc : s.pc.inExit = true) :
    OnlyFreed s.k.procTable s'.k.procTable := by
  cases h with
  | user _ _ _ _ _ _ hcall => exact (sysSendrec_sameSlots hcall).onlyFreed
  | task _ _ _ hstep => exact (mmStep_outcome hstep).onlyFreed (.inl hpc)
  | other htable _ =>
    dsimp only
    rw [htable]
    exact (SameSlots.refl _).onlyFreed

/-- The tasks and the native processes have no parent. -/
def NativeOrphans (t : ProcTable) : Prop := ∀ p, ¬ Forkable p → (t p).pParent = NO_TASK

theorem NativeOrphans.step {img : MmImage} {C : MmState → Prop} {s s' : MmState}
    (h : NativeOrphans s.k.procTable) (hs : MmSysStep img C s s') :
    NativeOrphans s'.k.procTable := by
  have hsame : SameSlots s.k.procTable s'.k.procTable → NativeOrphans s'.k.procTable :=
    fun hss p hp => (hss.parent p).trans (h p hp)
  cases hs with
  | user _ _ _ _ _ _ hcall => exact hsame (sysSendrec_sameSlots hcall)
  | task _ _ _ hstep =>
    rcases (mmStep_outcome hstep).slotChange with hss |
      ⟨pid, child, _, _, _, _, _, hforkable, htable⟩ | ⟨proc, _, _, _, htable⟩
    · exact hsame hss
    · intro p hp
      dsimp only
      have hne : p ≠ child := fun heq => hp (heq ▸ hforkable)
      rw [htable, forkTable_of_ne _ _ hne]
      exact h p hp
    · intro p hp
      dsimp only
      rw [htable]
      exact h p hp
  | other htable _ =>
    dsimp only
    rw [htable]
    exact h

/-- What holds of the calls of `do_exit` in the record. -/
structure ExitInv (f : FamilyState) : Prop where
  native : NativeOrphans f.sys.k.procTable
  exiting : ∀ e, f.exiting = some e →
    f.sys.pc.inExit = true ∧ e.pid ≠ INIT ∧ OnlyFreed e.before f.sys.k.procTable
  exits : ∀ e ∈ f.exits, e.pid ≠ INIT ∧ OnlyFreed e.before e.after

theorem FamilyBooted.exitInv {img : Image} {f : FamilyState} (h : FamilyBooted img f) :
    ExitInv f := by
  refine ⟨fun p hp => ?_, fun e he => ?_, fun e he => ?_⟩
  · have htable : f.sys.k.procTable = initProc img := h.sys.1
    have hlt : ¬ p.val ≥ NR_TASKS + NR_NATIVE_PROCS := hp
    rw [htable, initProc, initSlot, if_neg hlt]
  · rw [h.exiting] at he
    cases he
  · rw [h.exits] at he
    cases he

theorem ExitInv.step {img : MmImage} {C : MmState → Prop} {f f' : FamilyState} (h : ExitInv f)
    (hs : FamilyStep img C f f') : ExitInv f' := by
  obtain ⟨hstep⟩ := hs
  rename_i s'
  refine ⟨h.native.step hstep, fun e he => ?_, fun e he => ?_⟩
  · change s'.pc.inExit = true ∧ e.pid ≠ INIT ∧ OnlyFreed e.before s'.k.procTable
    rcases FamilyState.note_exiting he with ⟨hold, hnot⟩ | ⟨hpc, hdispatch, htype, hp, heq⟩
    · obtain ⟨hin, hne, hfreed⟩ := h.exiting e hold
      refine ⟨?_, hne, hfreed.trans (hstep.onlyFreed hin)⟩
      by_cases hpc : s'.pc = f.sys.pc
      · rw [hpc]
        exact hin
      · rcases (hstep.task_of_pc_ne hpc).2.inExit hin with hin' | ⟨hrecv, pid, i, hscan⟩
        · exact hin'
        · exact absurd hrecv (hnot pid i hscan)
    · -- `do_exit` has looked up the parent, so the process is not INIT
      have hout := (hstep.task_of_pc_ne hpc).2
      have hfreed := hout.onlyFreed (.inr htype)
      rw [hdispatch] at hout
      obtain ⟨parent, hparent, hcases⟩ := hout.exit_cases htype hp
      have hinit : e.pid ≠ INIT := by
        intro heq
        rw [heq, h.native INIT (by decide)] at hparent
        exact absurd hparent.symm (proc2pid_ne_noTask parent)
      have hin : s'.pc.inExit = true := by
        rcases hcases with ⟨_, _, hpc'⟩ | ⟨_, _, hpc'⟩
        · rw [hpc']
          rfl
        · rw [hpc']
          rfl
      refine ⟨hin, hinit, ?_⟩
      rw [heq]
      exact hfreed
  · rcases FamilyState.mem_note_exits he with hold | ⟨hexiting, hafter⟩
    · exact h.exits e hold
    · obtain ⟨hin, hne, hfreed⟩ := h.exiting _ hexiting
      rw [hafter]
      exact ⟨hne, hfreed.trans (hstep.onlyFreed hin)⟩

/-- The children of an exiting process are adopted exactly when there are none. -/
theorem ExitInv.adopted_iff {f : FamilyState} (h : ExitInv f) {e : ExitHandled} (he : e ∈ f.exits) :
    e.Adopted ↔ ∀ j, ¬ Child e.before e.pid j := by
  obtain ⟨hne, hfreed⟩ := h.exits e he
  constructor
  · intro ha j hj
    have hparent := ha.parent j hj
    rw [hfreed.parent j, hj.2] at hparent
    exact hne (proc2pid_inj.mp hparent)
  · intro hnone
    exact ⟨fun j hj => hnone j (hfreed.child hj), fun j hj => absurd hj (hnone j),
      fun _ ⟨j, hj, _⟩ => absurd hj (hnone j)⟩

/-! ### Parents -/

/-- The child of a fork is in use only if its parent is: it has the flags of its
    parent. -/
theorem ParentsLive.step {img : MmImage} {s s' : MmState} (h : ParentsLive s.k.procTable)
    (hs : MmSysStep img (OrphanSafe img) s s') : ParentsLive s'.k.procTable := by
  have hsame : SameSlots s.k.procTable s'.k.procTable → ParentsLive s'.k.procTable := by
    intro hss j hj hocc
    obtain ⟨q, hq, hlive⟩ := h j hj ((hss.occupied j).mp hocc)
    exact ⟨q, (hss.parent j).trans hq, (hss.occupied q).mpr hlive⟩
  cases hs with
  | user _ _ _ _ _ _ hcall => exact hsame (sysSendrec_sameSlots hcall)
  | task _ hC _ hstep =>
    rcases (mmStep_outcome hstep).slotChange with hss |
      ⟨pid, child, _, _, _, _, hfree, _, htable⟩ | ⟨proc, ret, hpc, _, htable⟩
    · exact hsame hss
    · dsimp only
      rw [htable]
      have hchild : ¬ Occupied (s.k.procTable child) :=
        not_occupied_of_free (findFreeSlot_free hfree)
      intro j hj hocc
      by_cases hjc : j = child
      · subst hjc
        rw [forkTable_self] at hocc ⊢
        have hpid : Occupied (s.k.procTable pid) := hocc
        refine ⟨pid, rfl, ?_⟩
        have hne : pid ≠ j := fun heq => hchild (heq ▸ hpid)
        rw [forkTable_of_ne _ _ hne]
        exact hpid
      · rw [forkTable_of_ne _ _ hjc] at hocc ⊢
        obtain ⟨q, hq, hlive⟩ := h j hj hocc
        refine ⟨q, hq, ?_⟩
        have hne : q ≠ child := fun heq => hchild (heq ▸ hlive)
        rw [forkTable_of_ne _ _ hne]
        exact hlive
    · have hnone := hC.2 proc (by rw [hpc]; rfl)
      dsimp only
      rw [htable]
      intro j hj hocc
      have hocc' := (occupied_freeSlot.mp hocc).2
      obtain ⟨q, hq, hlive⟩ := h j hj hocc'
      refine ⟨q, hq, occupied_freeSlot.mpr ⟨fun heq => ?_, hlive⟩⟩
      exact hnone j ⟨hocc', heq ▸ hq⟩
  | other htable _ =>
    dsimp only
    rw [htable]
    exact h

/-! ### Whole runs -/

/-- The processes that have called `do_exit` had no children. -/
structure Childless (f : FamilyState) : Prop where
  exiting : ∀ e, f.exiting = some e → ∀ j, ¬ Child e.before e.pid j
  exits : ∀ e ∈ f.exits, ∀ j, ¬ Child e.before e.pid j

theorem Childless.step {img : MmImage} {f f' : FamilyState} (h : Childless f)
    (hs : FamilyStep img (OrphanSafe img) f f') : Childless f' := by
  obtain ⟨hstep⟩ := hs
  refine ⟨fun e he => ?_, fun e he => ?_⟩
  · rcases FamilyState.note_exiting he with ⟨hold, _⟩ | ⟨hpc, hdispatch, htype, hp, heq⟩
    · exact h.exiting e hold
    · have hC := (hstep.task_of_pc_ne hpc).1
      rw [heq]
      exact hC.1 hdispatch htype e.pid hp
  · rcases FamilyState.mem_note_exits he with hold | ⟨hexiting, _⟩
    · exact h.exits e hold
    · exact h.exiting _ hexiting

/-- In every run in which only processes without children exit or are freed,
    every exit leaves things as it should, and at every moment the parent of a
    forked process is a process. -/
theorem exitRun_adopted {img : Image} {mimg : MmImage} {f : FamilyState}
    (h : Reachable (FamilyBooted img) (FamilyStep mimg (OrphanSafe mimg)) f) :
    (∀ e ∈ f.exits, e.Adopted) ∧ ParentsLive f.sys.k.procTable := by
  have hinv : ExitInv f ∧ Childless f ∧ ParentsLive f.sys.k.procTable := by
    refine h.invariant (I := fun f => ExitInv f ∧ Childless f ∧ ParentsLive f.sys.k.procTable)
      (fun f h0 => ⟨h0.exitInv, ⟨fun e he => ?_, fun e he => ?_⟩, fun j hj hocc => ?_⟩)
      fun f f' ⟨h1, h2, h3⟩ hs => ⟨h1.step hs, h2.step hs, ?_⟩
    · rw [h0.exiting] at he
      cases he
    · rw [h0.exits] at he
      cases he
    · exact absurd hocc (h0.sys.1.not_occupied hj)
    · obtain ⟨hstep⟩ := hs
      exact h3.step hstep
  obtain ⟨hexit, hnone, hlive⟩ := hinv
  exact ⟨fun e he => (hexit.adopted_iff he).mpr (hnone.exits e he), hlive⟩

/-- The child of INIT exits and is reaped. -/
theorem exitRun_adopted_reaped :
    ∃ f : FamilyState, (∃ e ∈ f.exits, e.pid = 7 ∧ e.Adopted) ∧
      ParentsLive f.sys.k.procTable := by
  obtain ⟨f, hf, e, he, hpid⟩ := FamilyState.exists_reachable (OrphanSafe sampleMmImage)
    forkWaitExit (fun f => ∃ e ∈ f.exits, e.pid = 7) (by decide +kernel)
  obtain ⟨hadopted, hlive⟩ := exitRun_adopted hf
  exact ⟨f, ⟨e, he, hpid, hadopted e he⟩, hlive⟩

/-- The child of INIT has a FORK at `0x1000`. -/
def childForkMem : Mem := fun a => if a = childBase + 0x1004 then 3 else 0

/-- INIT forks, its child forks as well and then exits. -/
def forkForkExit : List MmCall :=
  [.task, .user INIT SEND 2 0x1000, .task, .task, .user 7 RECEIVE 2 0x1000, .task,
    .user INIT RECEIVE 2 0x1000, .write childForkMem, .task, .user 7 SEND 2 0x1000, .task, .task,
    .user 8 RECEIVE 2 0x1000, .task, .user 7 RECEIVE 2 0x1000, .write waitExitMem, .task,
    .user 7 SEND 2 0x1000, .task, .task]

/-- Process 8 is still a child of process 7. -/
theorem orphan_not_adopted :
    ∃ f, Reachable (FamilyBooted sampleImage) (FamilyStep sampleMmImage fun _ => True) f ∧
      ∃ e ∈ f.exits, e.pid = 7 ∧ Child e.after 7 8 ∧ ¬ e.Adopted := by
  obtain ⟨f, hf, e, he, hpid, hchild⟩ := FamilyState.exists_reachable (fun _ => True)
    forkForkExit (fun f => ∃ e ∈ f.exits, e.pid = 7 ∧ Child e.after 7 8) (by decide)
  refine ⟨f, hf, e, he, hpid, hchild, fun ha => ?_⟩
  have hnone := ha.noneLeft 8
  rw [hpid] at hnone
  exact hnone hchild

end SimpleOs
