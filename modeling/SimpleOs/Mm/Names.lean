import SimpleOs.Io.Stdio
import SimpleOs.Mm.Identity

/-!
# The names of processes

`do_fork` names the child after its parent and its number, with
`s32_sprintf(p->name, "%s_%d", …)` (mm/mm.c:147); `name` has 32 bytes
(include/process.h:28, 123), and nobody looks at the length. A name grows with every
fork in the line from a native process on, by two characters for a slot below 10 and
by three for the others.

* `forkRun_names`: which lines of forks are too long.
* `name_overruns`: ten forks in a line.

The model has no bytes behind `name`, so it says what the code does up to the first
name that is too long. Where that matters the runs have `ForkNameFits` as a condition.
-/

namespace SimpleOs

open ByteMem Transition

/-! ## One name -/

/-- The name that `do_fork` prints (mm/mm.c:147). -/
def forkName (t : ProcTable) (pid child : Pid) : List Char :=
  (s32Sprintf "%s_%d" [.str (t pid).name.toList, .word (BitVec.ofNat 32 child.val)]).1

/-- How many characters a fork into the slot `child` adds. -/
def slotChars (child : Pid) : ℕ := if child.val < 10 then 2 else 3

theorem s32Itoa_slot : ∀ child : Pid,
    s32Itoa (BitVec.ofNat 32 child.val) 10 = (toString child.val).toList := by
  decide

theorem slotChars_eq : ∀ child : Pid, 1 + (toString child.val).toList.length = slotChars child := by
  decide

theorem forkName_eq (t : ProcTable) (pid child : Pid) :
    forkName t pid child = (t pid).name.toList ++ '_' :: (toString child.val).toList := by
  have hfmt : "%s_%d".toList = ['%', 's', '_', '%', 'd'] := by decide
  unfold forkName s32Sprintf
  rw [hfmt, ← s32Itoa_slot]
  simp [sprintfLoop]

/-- It is the name of the slot that `do_fork` fills. -/
theorem forkSlot_name (t : ProcTable) (pid child : Pid) :
    (forkSlot t pid child).name.toList = forkName t pid child := by
  have hname : (forkSlot t pid child).name = (t pid).name ++ "_" ++ toString child.val := rfl
  rw [hname, forkName_eq, String.toList_append, String.toList_append, List.append_assoc]
  rfl

theorem forkName_length (t : ProcTable) (pid child : Pid) :
    (forkName t pid child).length = (t pid).name.toList.length + slotChars child := by
  rw [forkName_eq, List.length_append, List.length_cons, ← slotChars_eq]
  omega

/-! ## Lines of forks -/

/-- Where a process comes from: a native process, and the slots of the forks that lead
    from it to the process. -/
structure Line where
  native : Pid
  forks : List Pid

def Line.fork (l : Line) (child : Pid) : Line := { l with forks := l.forks ++ [child] }

/-- The name of the native process, two characters for every fork into a slot below 10,
    three for every other. -/
def Line.chars (l : Line) : ℕ :=
  (taskName l.native).toList.length + 2 * l.forks.countP (·.val < 10) +
    3 * l.forks.countP (¬ ·.val < 10)

theorem Line.chars_fork (l : Line) (child : Pid) :
    (l.fork child).chars = l.chars + slotChars child := by
  unfold Line.fork Line.chars slotChars
  rw [List.countP_append, List.countP_append, List.countP_singleton, List.countP_singleton]
  by_cases h : child.val < 10
  · simp [h]
    omega
  · simp [h]
    omega

/-- A run with the line of the process that was last put into each slot. -/
structure NamedState where
  sys : MmState
  line : Pid → Line

/-- `do_fork` continues the line of the parent. -/
def NamedState.note (f : NamedState) (s' : MmState) : Pid → Line :=
  match f.sys.pc, s'.pc with
  | .dispatch, .forkSend src child =>
    match slot src with
    | .ok pid => Function.update f.line child ((f.line pid).fork child)
    | .error _ => f.line
  | _, _ => f.line

/-- A step of the system, of which note is taken. -/
inductive NamedStep (img : MmImage) (C : NamedState → Prop) (f : NamedState) : NamedState → Prop
  | mk {s' : MmState} (h : MmSysStep img (fun _ => C f) f.sys s') :
      NamedStep img C f ⟨s', f.note s'⟩

/-- The booted machine: every process is at the head of its own line. -/
structure NamedBooted (img : Image) (f : NamedState) : Prop where
  sys : MmBooted img f.sys
  line : f.line = fun p => ⟨p, []⟩

/-- `do_fork` is about to fill the slot `child` for `pid`. -/
structure Forks (img : MmImage) (s : MmState) (pid child : Pid) : Prop where
  pc : s.pc = .dispatch
  type : mmType img s.k = FORK
  source : mmSource img s.k = proc2pid pid
  free : findFreeSlot s.k.procTable = some child

/-- The line that the fork continues is short enough. -/
def ShortLine (img : MmImage) (f : NamedState) : Prop :=
  ∀ pid child, Forks img f.sys pid child → ((f.line pid).fork child).chars < TASK_NAME_LEN

/-! ## Whole runs -/

/-- The length of a name is that of its line. -/
def NamesFollow (f : NamedState) : Prop :=
  ∀ p, (f.sys.k.procTable p).name.toList.length = (f.line p).chars

theorem NamedBooted.follow {img : Image} {f : NamedState} (h : NamedBooted img f) :
    NamesFollow f := by
  intro p
  have htable : f.sys.k.procTable = initProc img := h.sys.1
  have hnone : ∀ p : Pid, p.val ≥ NR_TASKS + NR_NATIVE_PROCS → taskName p = "" := by decide
  rw [h.line, htable]
  unfold initProc initSlot Line.chars
  by_cases hp : p.val ≥ NR_TASKS + NR_NATIVE_PROCS
  · rw [if_pos hp, hnone p hp]
    rfl
  · rw [if_neg hp]
    rfl

/-- A step that fills no slot keeps the lines. -/
theorem NamedState.note_of_ne {f : NamedState} {s' : MmState}
    (h : f.sys.pc = s'.pc ∨ ∀ src child, s'.pc ≠ .forkSend src child) : f.note s' = f.line := by
  unfold NamedState.note
  split
  · rename_i src child hpc hpc'
    rcases h with h | h
    · rw [hpc, hpc'] at h
      cases h
    · exact absurd hpc' (h src child)
  · rfl

/-- A step keeps the names and the lines, or it is a fork. -/
theorem NamedStep.change {img : MmImage} {C : NamedState → Prop} {f f' : NamedState}
    (hs : NamedStep img C f f') :
    (SameIds f.sys.k.procTable f'.sys.k.procTable ∧ f'.line = f.line) ∨
    (∃ pid child, C f ∧ Forks img f.sys pid child ∧
      f'.sys.k.procTable = forkTable f.sys.k.procTable pid child ∧
      f'.line = Function.update f.line child ((f.line pid).fork child)) := by
  obtain ⟨hstep⟩ := hs
  cases hstep with
  | user p _ _ _ _ _ hcall =>
    exact .inl ⟨sysSendrec_sameIds hcall, NamedState.note_of_ne (.inl rfl)⟩
  | other htable _ => exact .inl ⟨.of_eq htable, NamedState.note_of_ne (.inl rfl)⟩
  | task eax hC _ htask =>
    rcases (mmStep_outcome htask).idChange with ⟨hsame, hpc⟩ |
      ⟨pid, child, hpc, hpc', htype, hsource, hfree, _, htable⟩
    · exact .inl ⟨hsame, NamedState.note_of_ne (.inr hpc)⟩
    · refine .inr ⟨pid, child, hC, ⟨hpc, htype, hsource, hfree⟩, htable, ?_⟩
      unfold NamedState.note
      rw [hpc]
      subst hpc'
      dsimp only
      rw [slot_proc2pid]

theorem NamesFollow.step {img : MmImage} {C : NamedState → Prop} {f f' : NamedState}
    (h : NamesFollow f) (hs : NamedStep img C f f') : NamesFollow f' := by
  intro p
  rcases hs.change with ⟨hsame, hline⟩ | ⟨pid, child, _, _, htable, hline⟩
  · rw [hsame.name, hline]
    exact h p
  · rw [htable, hline]
    by_cases hpc : p = child
    · subst hpc
      rw [forkTable_self, forkSlot_name, forkName_length, h pid, Function.update_self,
        Line.chars_fork]
    · rw [forkTable_of_ne _ _ hpc, Function.update_of_ne hpc]
      exact h p

/-- Every line is short enough. -/
def LinesShort (f : NamedState) : Prop := ∀ p, (f.line p).chars < TASK_NAME_LEN

theorem NamedBooted.linesShort {img : Image} {f : NamedState} (h : NamedBooted img f) :
    LinesShort f := by
  have hshort : ∀ p : Pid, (taskName p).toList.length < TASK_NAME_LEN := by decide
  intro p
  rw [h.line]
  exact hshort p

theorem LinesShort.step {img : MmImage} {f f' : NamedState} (h : LinesShort f)
    (hs : NamedStep img (ShortLine img) f f') : LinesShort f' := by
  intro p
  rcases hs.change with ⟨_, hline⟩ | ⟨pid, child, hshort, hforks, _, hline⟩
  · rw [hline]
    exact h p
  · rw [hline]
    by_cases hpc : p = child
    · rw [hpc, Function.update_self]
      exact hshort pid child hforks
    · rw [Function.update_of_ne hpc]
      exact h p

/-- In every state of every run whose forks continue short lines all names fit, and the
    name that the next fork prints fits if and only if the line that it continues is
    short. -/
theorem forkRun_names {img : Image} {mimg : MmImage} {f : NamedState}
    (h : Reachable (NamedBooted img) (NamedStep mimg (ShortLine mimg)) f) :
    (∀ p, (f.sys.k.procTable p).name.toList.length < TASK_NAME_LEN) ∧
      ∀ pid child, Forks mimg f.sys pid child →
        ((forkName f.sys.k.procTable pid child).length < TASK_NAME_LEN ↔
          ((f.line pid).fork child).chars < TASK_NAME_LEN) := by
  have hfollow : NamesFollow f := h.invariant (fun _ h0 => h0.follow) fun _ _ hI hs => hI.step hs
  have hshort : LinesShort f := h.invariant (fun _ h0 => h0.linesShort) fun _ _ hI hs => hI.step hs
  refine ⟨fun p => ?_, fun pid child _ => ?_⟩
  · rw [hfollow p]
    exact hshort p
  · rw [forkName_length, hfollow pid, Line.chars_fork]

/-! ### Ten forks in a line -/

/-- A FORK at `0x1000` of every process. -/
def lineMem : Mem := fun a => if a = 0x1004 ∨ a = childBase + 0x1004 then 3 else 0

/-- A fork of `caller` into the slot `child`, after which both go on. -/
def forkBy (caller child : Pid) : List MmCall :=
  [.write lineMem, .task, .user caller SEND 2 0x1000, .task, .task, .user child RECEIVE 2 0x1000,
    .task, .user caller RECEIVE 2 0x1000]

/-- Every child forks in its turn, from `proc a` on. -/
def forkLine : List MmCall :=
  forkBy 4 7 ++ (List.range 8).flatMap fun i => forkBy (Fin.ofNat 35 (7 + i)) (Fin.ofNat 35 (8 + i))

theorem forkRun_names_first : ∃ f, NamedBooted sampleImage f ∧
    ∀ p, (f.sys.k.procTable p).name.toList.length < TASK_NAME_LEN := by
  have hboot : NamedBooted sampleImage ⟨⟨requestMachine 3, .receive⟩, fun p => ⟨p, []⟩⟩ :=
    ⟨requestMachine_booted 3, rfl⟩
  have hreach : Reachable (NamedBooted sampleImage)
      (NamedStep sampleMmImage (ShortLine sampleMmImage)) _ := .init hboot
  exact ⟨_, hboot, (forkRun_names hreach).1⟩

/-- The tenth child is to be called `proc a_7_8_9_10_11_12_13_14_15_16`. -/
theorem name_overruns :
    ∃ s, Reachable (MmBooted sampleImage) (MmSysStep sampleMmImage fun _ => True) s ∧
      Forks sampleMmImage s 15 16 ∧
      (forkName s.k.procTable 15 16).length = 33 := by
  obtain ⟨s, hs, hpc, htype, hsource, hfree, hlen⟩ :=
    MmState.exists_reachable sampleMmImage (requestMachine_booted 3)
      (forkLine ++ [.write lineMem, .task, .user 15 SEND 2 0x1000])
      (fun s => s.pc = .dispatch ∧ mmType sampleMmImage s.k = FORK ∧
        mmSource sampleMmImage s.k = proc2pid 15 ∧ findFreeSlot s.k.procTable = some 16 ∧
        (forkName s.k.procTable 15 16).length = 33) (by decide +kernel)
  exact ⟨s, hs, ⟨hpc, htype, hsource, hfree⟩, hlen⟩

end SimpleOs
