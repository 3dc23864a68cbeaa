import Mathlib.Data.Finset.Card
import Mathlib.Data.Nat.Find
import Mathlib.Logic.Function.Iterate
import Mathlib.Tactic.Common

/-!
# Walks that advance before they test

A loop `do x = next(x); while (!stop(x))` tests the candidates `next x`, `next (next x)`, ….
`candidate next x n` is the one with the number `n`, and `Reaches` says that the loop comes
to it. Nothing is assumed of `next`: the walk need not end.

* `reaches_succ`, `forall_reaches`, `exists_reaches`: the first round, and then the walk from there.
* `exists_first`: a walk with a candidate to stop at comes to the first such.
* `lt_of_first`, `exists_hit_iff`: among `bound` values, the first hit is one of the first `bound`.
-/

namespace Walk

variable {α : Type*} {next : α → α} {stop : α → Prop} {x : α}

/-- The candidate with the number `n`. -/
def candidate (next : α → α) (x : α) (n : ℕ) : α := next^[n + 1] x

/-- None of the candidates before the one with the number `n` ends the walk. -/
def Reaches (next : α → α) (stop : α → Prop) (x : α) (n : ℕ) : Prop :=
  ∀ i < n, ¬ stop (candidate next x i)

@[simp] theorem candidate_zero : candidate next x 0 = next x := rfl

theorem candidate_succ (n : ℕ) : candidate next x (n + 1) = candidate next (next x) n :=
  Function.iterate_succ_apply next (n + 1) x

theorem reaches_zero : Reaches next stop x 0 := fun _ h => absurd h (Nat.not_lt_zero _)

theorem reaches_succ {n : ℕ} :
    Reaches next stop x (n + 1) ↔ ¬ stop (next x) ∧ Reaches next stop (next x) n := by
  constructor
  · intro h
    refine ⟨h 0 (Nat.succ_pos n), fun i hi => ?_⟩
    rw [← candidate_succ]
    exact h (i + 1) (Nat.succ_lt_succ hi)
  · intro ⟨h0, h⟩ i hi
    cases i with
    | zero => exact h0
    | succ i =>
      rw [candidate_succ]
      exact h i (Nat.lt_of_succ_lt_succ hi)

/-- A property of every candidate, with its number, that the walk comes to in `fuel + 1`
    rounds. -/
theorem forall_reaches {p : ℕ → Prop} {fuel : ℕ} :
    (∀ n < fuel + 1, Reaches next stop x n → p n) ↔
      p 0 ∧ (¬ stop (next x) → ∀ n < fuel, Reaches next stop (next x) n → p (n + 1)) := by
  constructor
  · intro h
    refine ⟨h 0 (Nat.succ_pos fuel) reaches_zero, fun hgo n hn hr => ?_⟩
    exact h (n + 1) (Nat.succ_lt_succ hn) (reaches_succ.mpr ⟨hgo, hr⟩)
  · intro ⟨h0, h⟩ n hn hr
    cases n with
    | zero => exact h0
    | succ n =>
      obtain ⟨hgo, hr⟩ := reaches_succ.mp hr
      exact h hgo n (Nat.lt_of_succ_lt_succ hn) hr

/-- A candidate with a property to which the walk comes in `fuel + 1` rounds. -/
theorem exists_reaches {p : ℕ → Prop} {fuel : ℕ} :
    (∃ n < fuel + 1, Reaches next stop x n ∧ p n) ↔
      p 0 ∨ (¬ stop (next x) ∧ ∃ n < fuel, Reaches next stop (next x) n ∧ p (n + 1)) := by
  constructor
  · intro ⟨n, hn, hr, hp⟩
    cases n with
    | zero => exact .inl hp
    | succ n =>
      obtain ⟨hgo, hr⟩ := reaches_succ.mp hr
      exact .inr ⟨hgo, n, Nat.lt_of_succ_lt_succ hn, hr, hp⟩
  · rintro (h0 | ⟨hgo, n, hn, hr, hp⟩)
    · exact ⟨0, Nat.succ_pos fuel, reaches_zero, h0⟩
    · exact ⟨n + 1, Nat.succ_lt_succ hn, reaches_succ.mpr ⟨hgo, hr⟩, hp⟩

theorem exists_first (h : ∃ n, stop (candidate next x n)) :
    ∃ n, Reaches next stop x n ∧ stop (candidate next x n) := by
  classical
  exact ⟨Nat.find h, fun _ hi => Nat.find_min h hi, Nat.find_spec h⟩

/-! ## Walks among finitely many values -/

section Bounded

variable {number : α → ℕ} {bound : ℕ}

/-- No value occurs twice before the first hit: from there the walk would repeat itself and
    never come to it. -/
theorem lt_of_first (hnumber : Function.Injective number) (hlt : ∀ i, number (next^[i] x) < bound)
    {n : ℕ} (hhit : stop (next^[n] x)) (hfirst : ∀ i < n, ¬ stop (next^[i] x)) : n < bound := by
  have hne : ∀ i j, i < j → j ≤ n → next^[i] x ≠ next^[j] x := by
    intro i j hij hjn heq
    have hshift : next^[n - j + i] x = next^[n] x := by
      rw [Function.iterate_add_apply, heq, ← Function.iterate_add_apply, Nat.sub_add_cancel hjn]
    refine hfirst (n - j + i) (by omega) ?_
    rw [hshift]
    exact hhit
  have hinj : Set.InjOn (fun i => number (next^[i] x)) (Finset.range (n + 1) : Set ℕ) := by
    intro i hi j hj heq
    have hi : i < n + 1 := Finset.mem_range.mp hi
    have hj : j < n + 1 := Finset.mem_range.mp hj
    have heq := hnumber heq
    rcases Nat.lt_trichotomy i j with hij | hij | hij
    · exact absurd heq (hne i j hij (by omega))
    · exact hij
    · exact absurd heq.symm (hne j i hij (by omega))
  have hcard := Finset.card_le_card_of_injOn (t := Finset.range bound) _
    (fun i _ => Finset.mem_range.mpr (hlt i)) hinj
  rw [Finset.card_range, Finset.card_range] at hcard
  omega

theorem exists_hit_iff (stop : α → Prop) (hnumber : Function.Injective number)
    (hlt : ∀ i, number (next^[i] x) < bound) :
    (∃ n, stop (next^[n] x)) ↔ ∃ n < bound, stop (next^[n] x) := by
  classical
  constructor
  · intro h
    exact ⟨Nat.find h, lt_of_first hnumber hlt (Nat.find_spec h) fun _ hi => Nat.find_min h hi,
      Nat.find_spec h⟩
  · intro ⟨n, _, hn⟩
    exact ⟨n, hn⟩

end Bounded

end Walk
