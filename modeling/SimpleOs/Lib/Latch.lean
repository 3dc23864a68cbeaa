import Mathlib.Data.List.Induction
import Mathlib.Tactic.Common

/-!
# Keys that are held down

A stream of letters in which one letter sets a latch and another clears it, as the make
and the break code of a key do. The latch is set when its letter has occurred and the
other has not occurred since.

* `latched_concat_set`, `latched_concat_clear`, `latched_concat_other`: one more letter.
* `latched_iff_foldl`: the latch as a state that every letter changes.
-/

namespace Latch

variable {α : Type*} {set clear x : α} {xs : List α}

/-- A list that ends in `x`, split somewhere. -/
theorem concat_eq_split {pre post : List α} {y : α}
    (h : xs ++ [x] = pre ++ y :: post) :
    (post = [] ∧ pre = xs ∧ y = x) ∨ ∃ post', post = post' ++ [x] ∧ xs = pre ++ y :: post' := by
  cases post using List.reverseRecOn with
  | nil =>
    obtain ⟨hpre, hy⟩ := List.append_inj' h rfl
    exact .inl ⟨rfl, hpre.symm, (List.singleton_inj.mp hy).symm⟩
  | append_singleton post z =>
    rw [← List.cons_append, ← List.append_assoc] at h
    obtain ⟨hpre, hz⟩ := List.append_inj' h rfl
    rw [List.singleton_inj.mp hz]
    exact .inr ⟨post, rfl, hpre⟩

/-- `set` has occurred, and `clear` has not occurred since. -/
def Latched (set clear : α) (xs : List α) : Prop :=
  ∃ pre post, xs = pre ++ set :: post ∧ clear ∉ post

theorem not_latched_nil : ¬ Latched set clear [] := by
  rintro ⟨pre, post, h, _⟩
  simp at h

theorem latched_concat_set : Latched set clear (xs ++ [set]) :=
  ⟨xs, [], rfl, List.not_mem_nil⟩

theorem latched_concat_clear (h : clear ≠ set) : ¬ Latched set clear (xs ++ [clear]) := by
  rintro ⟨pre, post, hxs, hpost⟩
  rcases concat_eq_split hxs with ⟨_, _, hlast⟩ | ⟨post', rfl, _⟩
  · exact h hlast.symm
  · exact hpost (by simp)

theorem latched_concat_other (hset : x ≠ set) (hclear : x ≠ clear) :
    Latched set clear (xs ++ [x]) ↔ Latched set clear xs := by
  constructor
  · rintro ⟨pre, post, hxs, hpost⟩
    rcases concat_eq_split hxs with ⟨_, _, hlast⟩ | ⟨post', rfl, hsplit⟩
    · exact absurd hlast.symm hset
    · exact ⟨pre, post', hsplit, fun hmem => hpost (List.mem_append_left _ hmem)⟩
  · rintro ⟨pre, post, rfl, hpost⟩
    refine ⟨pre, post ++ [x], by simp, ?_⟩
    simp [hpost, Ne.symm hclear]

variable [DecidableEq α]

/-- What a letter does to the latch. -/
def latch (set clear : α) (b : Bool) (x : α) : Bool :=
  if x = set then true else if x = clear then false else b

theorem latched_iff_foldl :
    Latched set clear xs ↔ xs.foldl (latch set clear) false = true := by
  induction xs using List.reverseRecOn with
  | nil => simp [not_latched_nil]
  | append_singleton xs x ih =>
    rw [List.foldl_append, List.foldl_cons, List.foldl_nil, latch]
    by_cases hset : x = set
    · subst hset
      simp [latched_concat_set]
    · by_cases hclear : x = clear
      · subst hclear
        simp [latched_concat_clear hset, hset]
      · rw [latched_concat_other hset hclear, ih, if_neg hset, if_neg hclear]

instance : Decidable (Latched set clear xs) := decidable_of_iff _ latched_iff_foldl.symm

end Latch
