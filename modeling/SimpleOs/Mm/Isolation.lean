import SimpleOs.Mm.Slots

/-!
# Isolation of forked processes

`do_fork` allocates a block for the child and then overwrites its address with
the constant `0xa00000` (mm/mm.c:164-165). All forked processes have the same
4 MB of linear memory, so they are apart from each other only as long as there
are not two of them.

* `forkRun_isolated`: the memory of forked processes is disjoint in every run in
  which a FORK is handled only when no forked process is alive.
* `shared_memory`: two children of INIT.
-/

namespace SimpleOs

open ByteMem Transition

/-! ## The memory of a process -/

/-- `a` lies in the data segment of `p`, as its descriptor gives it. -/
def InSegment (t : ProcTable) (p : Pid) (a : Addr) : Prop :=
  (a - ldtSegLinear (t p).ldtData).toNat < ((segLimit (t p).ldtData).toNat + 1) * 4096

instance (t : ProcTable) (p : Pid) (a : Addr) : Decidable (InSegment t p a) :=
  inferInstanceAs (Decidable (_ < _))

/-- The live processes that `do_fork` has created have no memory in common. -/
def Isolated (t : ProcTable) : Prop :=
  ∀ p q, p ≠ q → Forkable p → Forkable q → Occupied (t p) → Occupied (t q) →
    ∀ a, InSegment t p a → ¬ InSegment t q a

/-- A FORK for which there is a free slot is handled when no forked process is
    alive. -/
def ForksAlone (img : MmImage) (s : MmState) : Prop :=
  s.pc = .dispatch → mmType img s.k = FORK → findFreeSlot s.k.procTable ≠ none →
    ∀ p, Forkable p → ¬ Occupied (s.k.procTable p)

/-! ## At most one -/

/-- There are not two live forked processes. -/
def AtMostOne (t : ProcTable) : Prop :=
  ∀ p q, Forkable p → Forkable q → Occupied (t p) → Occupied (t q) → p = q

theorem AtMostOne.isolated {t : ProcTable} (h : AtMostOne t) : Isolated t :=
  fun p q hpq hp hq hop hoq => absurd (h p q hp hq hop hoq) hpq

theorem AtMostOne.mono {t t' : ProcTable} (h : AtMostOne t)
    (hocc : ∀ p, Forkable p → Occupied (t' p) → Occupied (t p)) : AtMostOne t' :=
  fun p q hp hq hop hoq => h p q hp hq (hocc p hp hop) (hocc q hq hoq)

theorem AtMostOne.step {img : MmImage} {s s' : MmState} (h : AtMostOne s.k.procTable)
    (hs : MmSysStep img (ForksAlone img) s s') : AtMostOne s'.k.procTable := by
  cases hs with
  | user p _ _ _ _ _ hcall =>
    have hsame := sysSendrec_sameSlots hcall
    exact h.mono fun p _ => (hsame.occupied p).mp
  | task eax hC _ hstep =>
    rcases (mmStep_outcome hstep).slotChange with hsame |
      ⟨pid, child, hpc, _, htype, _, hfree, _, htable⟩ | ⟨proc, _, _, _, htable⟩
    · exact h.mono fun p _ => (hsame.occupied p).mp
    · -- the child is the only one
      have halone := hC hpc htype (by rw [hfree]; nofun)
      have hchild : ∀ p, Forkable p → Occupied (forkTable s.k.procTable pid child p) →
          p = child := by
        intro p hp hocc
        by_contra hne
        rw [forkTable_of_ne _ _ hne] at hocc
        exact halone p hp hocc
      dsimp only
      rw [htable]
      intro p q hp hq hop hoq
      rw [hchild p hp hop, hchild q hq hoq]
    · dsimp only
      rw [htable]
      exact h.mono fun p _ hp => (occupied_freeSlot.mp hp).2
  | other htable _ =>
    dsimp only
    rw [htable]
    exact h

/-! ## Whole runs -/

/-- In every state of every run in which a FORK is handled only when no forked
    process is alive, forked processes share no byte. -/
theorem forkRun_isolated {img : Image} {mimg : MmImage} {s : MmState}
    (h : Reachable (MmBooted img) (MmSysStep mimg (ForksAlone mimg)) s) :
    Isolated s.k.procTable := by
  have hone : AtMostOne s.k.procTable :=
    h.invariant (I := fun s => AtMostOne s.k.procTable)
      (fun _ h0 p q hp _ hop _ => absurd hop (h0.1.not_occupied hp)) fun _ _ hI hs => hI.step hs
  exact hone.isolated

theorem forkRun_isolated_fork :
    ∃ s : MmState, s.pc = .forkSend 3 7 ∧ Occupied (s.k.procTable 7) ∧
      Isolated s.k.procTable := by
  have hrun : ∃ s, s.pc = .forkSend 3 7 ∧ Occupied (s.k.procTable 7) ∧
      Reachable (MmBooted sampleImage)
        (MmSysStep sampleMmImage (ForksAlone sampleMmImage)) s := by
    refine ⟨_, rfl, ?_, .step (.step (.step
      (.init (requestMachine_booted 3))
      (.task 0 (fun hpc => absurd hpc (by nofun)) rfl rfl))
      (.user INIT SEND (proc2pid TASK_MM) 0x1000 (by decide) rfl rfl))
      (.task 0 (fun _ _ _ => ?_) rfl rfl)⟩
    · exact occupied_of_ready rfl
    · decide
  obtain ⟨s, hpc, hlive, hs⟩ := hrun
  exact ⟨s, hpc, hlive, forkRun_isolated hs⟩

/-! ### Two children of INIT -/

/-- INIT forks, and everybody takes its reply; then it forks again. -/
def forkTwice : List MmCall :=
  [.task, .user INIT SEND 2 0x1000, .task, .task, .user 7 RECEIVE 2 0x1000, .task,
    .user INIT RECEIVE 2 0x1000, .write (requestMachine 3).mem, .task, .user INIT SEND 2 0x1000,
    .task]

theorem shared_memory :
    ∃ s, Reachable (MmBooted sampleImage) (MmSysStep sampleMmImage fun _ => True) s ∧
      ¬ Isolated s.k.procTable := by
  obtain ⟨s, hs, h7, h8, h7', h8'⟩ := MmState.exists_reachable sampleMmImage
    (requestMachine_booted 3) forkTwice
    (fun s => Occupied (s.k.procTable 7) ∧ Occupied (s.k.procTable 8) ∧
      InSegment s.k.procTable 7 childBase ∧ InSegment s.k.procTable 8 childBase)
    (by decide)
  exact ⟨s, hs, fun h => h 7 8 (by decide) (by decide) (by decide) h7 h8 childBase h7' h8'⟩

end SimpleOs
