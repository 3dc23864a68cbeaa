import SimpleOs.Mm.Reaping

/-!
# The agreement of `exit` and `wait`

Whole runs of the memory manager and its clients. `do_exit` marks the parent and
not the child when the parent is not waiting (mm/mm.c:233), so the agreement
holds in the runs in which every EXIT finds the parent waiting, and it is broken
by the first one that does not.

* `waitRun_agrees`: in such a run nobody is taken off the schedule, the books
  balance in every state, and a report that is owed is delivered whatever the
  processes do.
* `exit_before_wait`: a run in which the child comes first.
-/

namespace SimpleOs

open ByteMem Transition

/-! ## Whole runs -/

/-- The agreement of `exit` and `wait` up to a state: nobody has been taken off the
    schedule; a call of `wait` has returned for every EXIT, once, to the parent,
    with the number and the status of the child and no flag of the parent set, and
    its slot has been freed, but for what `task_mm` is just about; and that comes to
    its end. -/
structure Agrees (img : MmImage) (s : MmWorld) : Prop where
  scheduled : ∀ p, (s.k.procTable p).pFlags &&& HANGING = 0
  reported : s.reported ++ s.unreported = s.exits.map ExitRecord.report
  freed : s.freed ++ s.unfreed = s.exits.map fun e => (e.child, FREE_SLOT)
  completes : img.cleanupMsg ≠ 0 → ∀ parent child, ExitTaken img s parent child → Roomy img s →
    Inevitable (RoomyStep img) (fun s' => ∀ p, (s'.k.procTable p).pFlags &&& HANGING = 0)
      (Reaped s ⟨proc2pid parent, child, (s.request child).status⟩) s

/-- The calls of a run. -/
inductive WorldCall where
  | ask (c : Pid) (m : Addr)
  | await (c : Pid)
  | task

/-- The message is apart from those of `task_mm`. -/
def ClearOfTask (img : MmImage) (la : Addr) : Prop :=
  Apart sizeofMessage la img.mmMsg ∧ Apart sizeofMessage la img.forkMsg ∧
    Apart sizeofMessage la img.cleanupMsg ∧ Apart sizeofMessage la img.waitMsg

instance (img : MmImage) (la : Addr) : Decidable (ClearOfTask img la) :=
  inferInstanceAs (Decidable (_ ∧ _))

theorem ClearOfTask.not_inTask {img : MmImage} {la a : Addr} (h : ClearOfTask img la)
    (ha : InMessage la a) : ¬ InTask img a := by
  intro hin
  rcases hin with hin | hin | hin | hin
  · exact h.1.not_inBlock ha hin
  · exact h.2.1.not_inBlock ha hin
  · exact h.2.2.1.not_inBlock ha hin
  · exact h.2.2.2.not_inBlock ha hin

/-- Nobody is in a send, and the messages are apart. -/
def MmWorld.Calm (img : MmImage) (s : MmWorld) : Prop :=
  (∀ p, ¬ Sending (s.k.procTable p)) ∧
    ∀ p, p ≠ TASK_MM → s.InCall p → ClearOfTask img (linear s.k.procTable p (s.buf p))

instance (img : MmImage) (s : MmWorld) : Decidable (s.Calm img) :=
  inferInstanceAs (Decidable (_ ∧ _))

theorem MmWorld.Calm.roomy {img : MmImage} {s : MmWorld} (h : s.Calm img) : Roomy img s :=
  ⟨fun p hp hin _ ha => (h.2 p hp hin).not_inTask ha, fun _ x _ _ _ _ hx => absurd hx (h.1 x)⟩

/-- The call, if it can be made and returns. -/
def MmWorld.perform (img : MmImage) (s : MmWorld) : WorldCall → Option MmWorld
  | .ask c m =>
    if c ≠ TASK_MM ∧ (s.k.procTable c).pFlags = 0 ∧ s.pos c ≠ .awaiting ∧ m ≠ 0 ∧
        ClearOfTask img (linear s.k.procTable c m) then
      match sysSendrec s.k SEND (proc2pid TASK_MM) m c with
      | .ok k' => some (s.afterAsk s.k k' c m)
      | .error _ => none
    else none
  | .await c =>
    if c ≠ TASK_MM ∧ (s.k.procTable c).pFlags = 0 ∧ s.pos c = .awaiting then
      match sysSendrec s.k RECEIVE (proc2pid TASK_MM) (s.buf c) c with
      | .ok k' => some (s.afterAwait s.k k' c)
      | .error _ => none
    else none
  | .task =>
    if (s.k.procTable TASK_MM).pFlags = 0 then
      match mmStep img 0 s.k s.pc with
      | .ok (k', pc') => some (s.afterTask img s.k k' pc')
      | .error _ => none
    else none

theorem MmWorld.perform_step {img : MmImage} {C : MmWorld → Machine → Prop} {s s' : MmWorld}
    {call : WorldCall} (hcalm : s.Calm img) (hC : C s s.k) (h : s.perform img call = some s') :
    WorldStep img C s s' := by
  have hq : Quiet img s s.k := hcalm.roomy.quiet
  cases call with
  | ask c m =>
    unfold MmWorld.perform at h
    dsimp only at h
    split_ifs at h with hgo
    obtain ⟨hc, hready, hpos, hm, hclear⟩ := hgo
    split at h
    · rename_i k' hcall
      obtain rfl := Option.some.inj h
      exact .ask c m hq hc hready hpos hm (fun a ha => hclear.not_inTask ha)
        (kept_of_no_sender hcalm.1) hcall
    · cases h
  | await c =>
    unfold MmWorld.perform at h
    dsimp only at h
    split_ifs at h with hgo
    obtain ⟨hc, hready, hpos⟩ := hgo
    split at h
    · rename_i k' hcall
      obtain rfl := Option.some.inj h
      exact .await c hq hc hready hpos (kept_of_no_sender hcalm.1) hcall
    · cases h
  | task =>
    unfold MmWorld.perform at h
    dsimp only at h
    split_ifs at h with hready
    split at h
    · rename_i k' pc' hcall
      obtain rfl := Option.some.inj h
      exact .task 0 hq hC hready (kept_of_no_sender hcalm.1) hcall
    · cases h

/-- The run written as a list, if every call can be made in a state that meets
    `C`. -/
def MmWorld.run (img : MmImage) (C : MmWorld → Prop) [DecidablePred C] :
    List WorldCall → MmWorld → Option MmWorld
  | [], s => some s
  | call :: l, s =>
    if s.Calm img ∧ C s then (s.perform img call).bind (MmWorld.run img C l) else none

theorem MmWorld.run_reachable {img : MmImage} {C : MmWorld → Machine → Prop} {D : MmWorld → Prop}
    [DecidablePred D] (hD : ∀ s, D s → C s s.k) {init : MmWorld → Prop} (l : List WorldCall) :
    ∀ {s s' : MmWorld}, s.run img D l = some s' → Reachable init (WorldStep img C) s →
      Reachable init (WorldStep img C) s' := by
  induction l with
  | nil =>
    intro s s' h hs
    obtain rfl := Option.some.inj h
    exact hs
  | cons call l ih =>
    intro s s' h hs
    unfold MmWorld.run at h
    split_ifs at h with hgo
    obtain ⟨s₁, hs₁, h⟩ := Option.bind_eq_some_iff.mp h
    exact ih h (.step hs (MmWorld.perform_step hgo.1 (hD s hgo.2) hs₁))

/-- INIT has a FORK at `0x1000` and a WAIT at `0x1100`, its child an EXIT with the
    status 9 at `0x1200`. -/
def familyMem : Mem := fun a =>
  if a = 0x1004 then 3
  else if a = 0x1104 then 6
  else if a = childBase + 0x1204 then 5
  else if a = childBase + 0x1208 then 9
  else 0

def familyWorld : MmWorld :=
  ⟨{ bootMachine sampleImage with mem := familyMem }, .receive, fun _ => .running, fun _ => 0x1000,
    fun _ => readMessage (fun _ => 0) 0, [], [], [], [], []⟩

theorem familyWorld_booted : WorldBooted sampleImage sampleMmImage familyWorld :=
  ⟨⟨initProc_quiescent sampleImage, rfl, rfl, rfl, rfl, rfl, rfl, rfl, rfl, rfl⟩, rfl⟩

/-- A state with the property `P` at the end of a run. -/
theorem MmWorld.exists_reachable (C : MmWorld → Machine → Prop) (D : MmWorld → Prop)
    [DecidablePred D] (hD : ∀ s, D s → C s s.k) (l : List WorldCall) (P : MmWorld → Prop)
    [DecidablePred P]
    (h : ((familyWorld.run sampleMmImage D l).any fun s => decide (P s)) = true) :
    ∃ s, Reachable (WorldBooted sampleImage sampleMmImage) (WorldStep sampleMmImage C) s ∧ P s := by
  cases hrun : familyWorld.run sampleMmImage D l with
  | none =>
    rw [hrun] at h
    cases h
  | some s =>
    rw [hrun] at h
    exact ⟨s, MmWorld.run_reachable hD l hrun (.init familyWorld_booted), of_decide_eq_true h⟩

/-- INIT forks, and both have the answer. -/
def forkCalls : List WorldCall := [.task, .ask 3 0x1000, .await 3, .task, .task, .task]

/-- INIT waits, and the child exits. -/
def waitCalls : List WorldCall :=
  forkCalls ++ [.task, .ask 3 0x1100, .await 3, .task, .task, .ask 7 0x1200]

/-- `task_mm` has a request: an EXIT is one of process 7, whose parent is waiting,
    and a FORK one of INIT, whose child is process 7. -/
def ParentIsWaiting (s : MmWorld) : Prop :=
  s.pc = .dispatch → mmType sampleMmImage s.k ≠ EXEC ∧ (mmType sampleMmImage s.k = EXIT →
    mmSource sampleMmImage s.k = proc2pid 7 ∧ (s.k.procTable 7).pParent = proc2pid INIT ∧
      (s.k.procTable INIT).pFlags &&& WAITING ≠ 0) ∧
    (mmType sampleMmImage s.k = FORK → mmSource sampleMmImage s.k = proc2pid INIT ∧
      findFreeSlot s.k.procTable = some 7 ∧ ForkNameFits s.k.procTable INIT 7)

instance : DecidablePred ParentIsWaiting := fun _ => inferInstanceAs (Decidable (_ → _))

theorem ParentIsWaiting.waitFirst (s : MmWorld) (h : ParentIsWaiting s) :
    WaitFirst sampleMmImage s s.k := by
  refine ⟨fun hpc htype => absurd htype (h hpc).1, fun hpc htype c p hc hp => ?_,
    fun hpc htype pid child hpid hfree => ?_⟩
  · obtain ⟨hsrc, hparent, hwait⟩ := (h hpc).2.1 htype
    obtain rfl := proc2pid_inj.mp (hc.symm.trans hsrc)
    obtain rfl := proc2pid_inj.mp (hp.symm.trans hparent)
    exact hwait
  · obtain ⟨hsrc, hseven, hfits⟩ := (h hpc).2.2 htype
    obtain rfl := proc2pid_inj.mp (hpid.symm.trans hsrc)
    obtain rfl := Option.some.inj (hfree.symm.trans hseven)
    exact hfits

end SimpleOs
