import Mathlib.Data.List.Forall2
import Mathlib.Tactic.Common

/-!
# A buffer whose reads can fail

A list of things is read into one buffer, one after the other. A read that fails leaves the
buffer as it is, so what it holds then was delivered for something else.

* `held_of_ok`: nothing fails.
* `held_rel`: two ways to read that agree as far as a relation goes.
-/

namespace Held

variable {α β β' : Type*}

/-- What the buffer holds after each of the reads, of which those with the given numbers
    fail. -/
def held (fails : ℕ → Bool) (read : α → β → β) : List α → β → List β
  | [], _ => []
  | x :: xs, b =>
    let b' := if fails 0 then b else read x b
    b' :: held (fun i => fails (i + 1)) read xs b'

variable {fails : ℕ → Bool} {read : α → β → β} {read' : α → β' → β'}

theorem held_cons (x : α) (xs : List α) (b : β) :
    held fails read (x :: xs) b = (if fails 0 then b else read x b) ::
      held (fun i => fails (i + 1)) read xs (if fails 0 then b else read x b) := rfl

@[simp] theorem length_held (xs : List α) (b : β) : (held fails read xs b).length = xs.length := by
  induction xs generalizing fails b with
  | nil => rfl
  | cons x xs ih => simp [held_cons, ih]

/-- When nothing fails, the buffer holds what was read last. -/
theorem held_of_ok {f : α → β} (hok : ∀ i, fails i = false) (xs : List α) (b : β) :
    held fails (fun x _ => f x) xs b = xs.map f := by
  induction xs generalizing fails b with
  | nil => rfl
  | cons x xs ih =>
    have hfirst : (if fails 0 then b else f x) = f x := by simp [hok 0]
    rw [held_cons, hfirst, ih fun i => hok (i + 1), List.map_cons]

theorem held_rel {R : β → β' → Prop} {xs : List α}
    (hread : ∀ x ∈ xs, ∀ b b', R b b' → R (read x b) (read' x b')) {b : β} {b' : β'} (hb : R b b') :
    List.Forall₂ R (held fails read xs b) (held fails read' xs b') := by
  induction xs generalizing fails b b' with
  | nil => exact .nil
  | cons x xs ih =>
    have hfirst : R (if fails 0 then b else read x b) (if fails 0 then b' else read' x b') := by
      split_ifs
      · exact hb
      · exact hread x List.mem_cons_self b b' hb
    exact .cons hfirst (ih (fun y hy => hread y (List.mem_cons_of_mem _ hy)) hfirst)

end Held
