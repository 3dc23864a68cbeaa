import Mathlib.Tactic.IntervalCases
import SimpleOs.Kernel.IpcRuns

/-!
# Round-robin scheduling

`schedule` (process.c:560-581) goes round the table from the slot behind
`ready_process`. It is called by `block` (process.c:583-587) and, at every tick
that interrupts a process, by `clock_handler` (clock.c:15-36).

* `schedule_roundRobin`: which slot it selects, and what this means for the
  calls that follow.
-/

namespace SimpleOs

open ByteMem RoundRobin

/-- `clock_handler` (clock.c:15-36). -/
def clockHandler (k : Machine) : Except Fault Machine :=
  let k := { k with ticks := k.ticks + 1 }
  if k.kReenter ≠ 0 then .ok k else schedule k

/-- The slot can run. -/
def Runnable (t : ProcTable) (p : Pid) : Prop := (t p).pFlags = 0

instance (t : ProcTable) : DecidablePred (Runnable t) :=
  fun p => inferInstanceAs (Decidable ((t p).pFlags = 0))

/-- `schedule` selects the next slot that can run, and changes nothing else. -/
theorem schedule_next {k : Machine} (h : ∃ p, Runnable k.procTable p) :
    ∃ r, schedule k = .ok { k with readyProcess := r } ∧
      IsNext (Runnable k.procTable) k.readyProcess r := by
  obtain ⟨p, hp⟩ := h
  rcases scheduleLoop_cases k.procTable k.readyProcess with ⟨r, hr, hnext⟩ | ⟨-, hnone⟩
  · refine ⟨r, ?_, hnext⟩
    rw [schedule, hr]
    rfl
  · exact absurd hp (hnone p)

/-- At a tick that interrupts a process the next one gets its turn; at one that
    interrupts the kernel nobody does. -/
theorem clockHandler_next {k : Machine} (h : ∃ p, Runnable k.procTable p) :
    ∃ r, clockHandler k = .ok { k with ticks := k.ticks + 1, readyProcess := r } ∧
      if k.kReenter = 0 then IsNext (Runnable k.procTable) k.readyProcess r
      else r = k.readyProcess := by
  unfold clockHandler
  by_cases hk : k.kReenter = 0
  · obtain ⟨r, hr, hnext⟩ := schedule_next (k := { k with ticks := k.ticks + 1 }) h
    refine ⟨r, ?_, ?_⟩
    · rw [if_neg (not_not.mpr hk)]
      exact hr
    · rw [if_pos hk]
      exact hnext
  · refine ⟨k.readyProcess, ?_, ?_⟩
    · rw [if_pos hk]
    · rw [if_neg hk]

/-- `n` calls of `schedule`, the `i`-th of them from `m i` to `m' i`. Between two
    calls anything may change but `ready_process` and which slots can run. -/
structure ScheduleCalls (runnable : Finset Pid) (n : ℕ) (m m' : ℕ → Machine) : Prop where
  call : ∀ i < n, schedule (m i) = .ok (m' i)
  next : ∀ i, i + 1 < n → (m (i + 1)).readyProcess = (m' i).readyProcess
  flags : ∀ i < n, ∀ p, p ∈ runnable ↔ Runnable (m i).procTable p

section Calls

variable {runnable : Finset Pid} {n : ℕ} {m m' : ℕ → Machine}

/-- What one of the calls selects. -/
theorem ScheduleCalls.isNext (h : ScheduleCalls runnable n m m') {i : ℕ} (hi : i < n)
    (hne : runnable.Nonempty) :
    IsNext (fun p => p ∈ runnable) (m i).readyProcess (m' i).readyProcess := by
  obtain ⟨p, hp⟩ := hne
  obtain ⟨r, hr, hnext⟩ := schedule_next ⟨p, (h.flags i hi p).mp hp⟩
  have hm' : m' i = { m i with readyProcess := r } := Except.ok.inj ((h.call i hi).symm.trans hr)
  have hsame : (fun p => p ∈ runnable) = Runnable (m i).procTable :=
    funext fun q => propext (h.flags i hi q)
  rw [hm', hsame]
  exact hnext

/-- The slots that one call after the other selects. -/
def selected (m m' : ℕ → Machine) : ℕ → Pid
  | 0 => (m 0).readyProcess
  | i + 1 => (m' i).readyProcess

theorem ScheduleCalls.selected_eq (h : ScheduleCalls runnable n m m') {i : ℕ} (hi : i < n) :
    selected m m' i = (m i).readyProcess := by
  cases i with
  | zero => rfl
  | succ i => exact (h.next i hi).symm

end Calls

/-- Where a slot can run, `schedule` ends, changes nothing but `ready_process` and
    sets it to the first slot that can run strictly after the old one, the old one
    being the last that is tried. As many calls in a row as there are slots that
    can run select each of them exactly once. -/
theorem schedule_roundRobin :
    (∀ k : Machine, (∃ p, (k.procTable p).pFlags = 0) →
      ∃ r, schedule k = .ok { k with readyProcess := r } ∧
        IsNext (fun p => (k.procTable p).pFlags = 0) k.readyProcess r) ∧
    ∀ (runnable : Finset Pid) (m m' : ℕ → Machine),
      ScheduleCalls runnable runnable.card m m' →
      (∀ i < runnable.card, (m' i).readyProcess ∈ runnable) ∧
      ∀ p ∈ runnable, ∃! i, i < runnable.card ∧ (m' i).readyProcess = p := by
  refine ⟨fun k h => schedule_next h, fun runnable m m' h => ⟨fun i hi => ?_, fun p hp => ?_⟩⟩
  · obtain ⟨_, _, _, hmem, _⟩ := h.isNext hi (Finset.card_pos.mp (by omega))
    exact hmem
  · have hcard : (Finset.univ.filter fun q => q ∈ runnable).card = runnable.card := by
      rw [Finset.filter_univ_mem]
    have hnext : ∀ i < (Finset.univ.filter fun q => q ∈ runnable).card,
        IsNext (fun q => q ∈ runnable) (selected m m' i) (selected m m' (i + 1)) := by
      intro i hi
      rw [hcard] at hi
      rw [h.selected_eq hi]
      exact h.isNext hi ⟨p, hp⟩
    have honce := visits_once hnext hp
    rw [hcard] at honce
    exact honce

/-- The booted machine with `ready_process` at one of the seven processes. -/
def bootTurn (i : ℕ) : Machine :=
  { bootMachine sampleImage with readyProcess := Fin.ofNat 35 (i % 7) }

/-- Seven ticks after the start each of the seven processes has had its turn. -/
theorem schedule_roundRobin_boot :
    ∀ p ∈ ({0, 1, 2, 3, 4, 5, 6} : Finset Pid),
      ∃! i, i < 7 ∧ (bootTurn (i + 1)).readyProcess = p := by
  refine (schedule_roundRobin.2 {0, 1, 2, 3, 4, 5, 6} bootTurn (fun i => bootTurn (i + 1)) ?_).2
  refine ⟨fun i hi => ?_, fun i _ => rfl, fun i _ p => ?_⟩
  · have hi' : i < 7 := hi
    interval_cases i <;> rfl
  · have hboot : ∀ p : Pid, p ∈ ({0, 1, 2, 3, 4, 5, 6} : Finset Pid) ↔
        Runnable (initProc sampleImage) p := by decide
    exact hboot p

end SimpleOs
