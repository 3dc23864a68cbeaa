import Mathlib.Data.List.Induction
import Mathlib.Data.Nat.Notation
import Mathlib.Logic.Relation

/-!
# Transition systems

The states a system reaches from its initial states, and the induction that
turns "the initial states satisfy it, and every step preserves it" into "every
reachable state satisfies it"; the same for the beginnings of one sequence of
steps. What every schedule comes to, and the rule that proves it from a number
that every step makes smaller. Runs with labels, and the forward simulation of one
system by another.
-/

namespace Transition

variable {σ : Type*}

/-- The states reachable from `init` by `step`. -/
inductive Reachable (init : σ → Prop) (step : σ → σ → Prop) : σ → Prop
  | init {s : σ} : init s → Reachable init step s
  | step {s s' : σ} : Reachable init step s → step s s' → Reachable init step s'

variable {init : σ → Prop} {step : σ → σ → Prop}

/-- The invariant rule. -/
theorem Reachable.invariant {I : σ → Prop} (h0 : ∀ s, init s → I s)
    (hstep : ∀ s s', I s → step s s' → I s') {s : σ} (h : Reachable init step s) : I s := by
  induction h with
  | init hi => exact h0 _ hi
  | step _ hs ih => exact hstep _ _ ih hs

/-- What is reached from a reachable state. -/
theorem Reachable.extend {s s' : σ} (h : Reachable init step s)
    (hrun : Relation.ReflTransGen step s s') : Reachable init step s' := by
  induction hrun with
  | refl => exact h
  | tail _ hstep ih => exact .step ih hstep

/-- The rule for the beginnings of a list, one more element at a time. -/
theorem prefix_induction {α : Type*} {xs : List α} {P : List α → Prop} (nil : P [])
    (concat : ∀ pre x, pre ++ [x] <+: xs → P pre → P (pre ++ [x])) {pre : List α}
    (h : pre <+: xs) : P pre := by
  induction pre using List.reverseRecOn with
  | nil => exact nil
  | append_singleton pre x ih => exact concat pre x h (ih ((List.prefix_append ..).trans h))

/-- A system whose initial states and steps are among another's reaches no
    state the other does not. -/
theorem Reachable.mono {init' : σ → Prop} {step' : σ → σ → Prop} (h0 : ∀ s, init s → init' s)
    (hstep : ∀ s s', step s s' → step' s s') {s : σ} (h : Reachable init step s) :
    Reachable init' step' s := by
  induction h with
  | init hi => exact .init (h0 _ hi)
  | step _ hs ih => exact .step ih (hstep _ _ hs)

/-- Whichever steps are taken from `s`, they lead to a state in `goal`; until then
    every state is in `safe`, and some step can be taken. -/
inductive Inevitable (step : σ → σ → Prop) (safe goal : σ → Prop) : σ → Prop
  | now {s : σ} (h : goal s) : Inevitable step safe goal s
  | later {s : σ} (hsafe : safe s) (hmore : ∃ s', step s s')
      (hall : ∀ s', step s s' → Inevitable step safe goal s') : Inevitable step safe goal s

/-- The rule of the decreasing number: `I n s` says that `s` is as it should be, and
    at most `n` steps from the goal. -/
theorem Inevitable.of_measure {safe goal : σ → Prop} {I : ℕ → σ → Prop}
    (hsafe : ∀ n s, I n s → goal s ∨ safe s ∧ (∃ s', step s s'))
    (hstep : ∀ n s s', I n s → step s s' → goal s' ∨ ∃ n', n' < n ∧ I n' s') {n : ℕ} {s : σ}
    (h : I n s) : Inevitable step safe goal s := by
  induction n using Nat.strongRecOn generalizing s with
  | ind n ih =>
    rcases hsafe n s h with hgoal | ⟨hs, hmore⟩
    · exact .now hgoal
    · refine .later hs hmore fun s' hs' => ?_
      rcases hstep n s s' h hs' with hgoal | ⟨n', hlt, hI⟩
      · exact .now hgoal
      · exact ih n' hlt hI

theorem Inevitable.mono {safe goal goal' : σ → Prop} {s : σ} (hgoal : ∀ s, goal s → goal' s)
    (h : Inevitable step safe goal s) : Inevitable step safe goal' s := by
  induction h with
  | now h => exact .now (hgoal _ h)
  | later hsafe hmore _ ih => exact .later hsafe hmore ih

/-- What some step preserves, wherever there is one, holds in some state of the goal. -/
theorem Inevitable.exists_goal_along {safe goal I : σ → Prop} {s : σ}
    (hstep : ∀ s, I s → (∃ s', step s s') → ∃ s', step s s' ∧ I s')
    (h : Inevitable step safe goal s) (hI : I s) : ∃ s', goal s' ∧ I s' := by
  induction h with
  | now h => exact ⟨_, h, hI⟩
  | later _ hmore _ ih =>
    obtain ⟨s', hs', hI'⟩ := hstep _ hI hmore
    exact ih s' hs' hI'

/-- What every step preserves holds in some state of the goal. -/
theorem Inevitable.exists_goal {safe goal I : σ → Prop} {s : σ}
    (hstep : ∀ s s', I s → step s s' → I s') (h : Inevitable step safe goal s) (hI : I s) :
    ∃ s', goal s' ∧ I s' :=
  h.exists_goal_along (fun _ hI ⟨s', hs'⟩ => ⟨s', hs', hstep _ _ hI hs'⟩) hI

/-! ## Runs with labels -/

variable {τ ι : Type*}

/-- Steps one behind the other, with the list of their labels. -/
inductive Run (step : ι → σ → σ → Prop) : List ι → σ → σ → Prop
  | nil (s : σ) : Run step [] s s
  | cons {e : ι} {l : List ι} {s s' s'' : σ} (hs : step e s s') (h : Run step l s' s'') :
      Run step (e :: l) s s''

/-- The rule of the forward simulation: related states can take the same steps. -/
theorem Run.simulate {stepσ : ι → σ → σ → Prop} {stepτ : ι → τ → τ → Prop} {R : σ → τ → Prop}
    (hstep : ∀ e s s' t, R s t → stepσ e s s' → ∃ t', stepτ e t t' ∧ R s' t') {l : List ι}
    {s s' : σ} (h : Run stepσ l s s') {t : τ} (ht : R s t) :
    ∃ t', Run stepτ l t t' ∧ R s' t' := by
  induction h generalizing t with
  | nil s => exact ⟨t, .nil t, ht⟩
  | cons hs _ ih =>
    obtain ⟨t₁, hs₁, ht₁⟩ := hstep _ _ _ t ht hs
    obtain ⟨t₂, hrun, ht₂⟩ := ih ht₁
    exact ⟨t₂, .cons hs₁ hrun, ht₂⟩

end Transition
