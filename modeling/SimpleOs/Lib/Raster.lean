import Mathlib.Data.List.Basic
import Mathlib.Tactic.Common

/-!
# Line by line

Two nested loops, over the lines and over the columns of a line, with a counter that
advances in every round of the inner one. `f x y k` is what a round does with the counter
at `k`.

* `row_snd`: the counter after a line.
* `mem_scan`: in line `y` and column `x` the counter is at `y * w + x`.
-/

namespace Raster

variable {α : Type*} (f : ℕ → ℕ → ℕ → α)

/-- `n` columns of line `y` from column `x` on. -/
def row (y : ℕ) : ℕ → ℕ → ℕ → List α × ℕ
  | 0, _, k => ([], k)
  | n + 1, x, k =>
    let rest := row y n (x + 1) (k + 1)
    (f x y k :: rest.1, rest.2)

/-- `n` lines of `w` columns from line `y` on. -/
def scan (w : ℕ) : ℕ → ℕ → ℕ → List α × ℕ
  | 0, _, k => ([], k)
  | n + 1, y, k =>
    let line := row f y w 0 k
    let rest := scan w n (y + 1) line.2
    (line.1 ++ rest.1, rest.2)

variable {f}

theorem row_snd (y n x k : ℕ) : (row f y n x k).2 = k + n := by
  induction n generalizing x k with
  | zero => rfl
  | succ n ih =>
    rw [row, ih]
    omega

theorem mem_row {y n x k : ℕ} {p : α} :
    p ∈ (row f y n x k).1 ↔ ∃ i < n, p = f (x + i) y (k + i) := by
  induction n generalizing x k with
  | zero =>
    constructor
    · intro hp
      cases hp
    · rintro ⟨i, hi, _⟩
      omega
  | succ n ih =>
    rw [row, List.mem_cons, ih]
    constructor
    · rintro (rfl | ⟨i, hi, rfl⟩)
      · exact ⟨0, Nat.succ_pos n, rfl⟩
      · exact ⟨i + 1, by omega, by rw [Nat.add_right_comm, Nat.add_assoc x, Nat.add_right_comm k,
          Nat.add_assoc k]⟩
    · rintro ⟨i, hi, rfl⟩
      cases i with
      | zero => exact Or.inl rfl
      | succ i =>
        refine Or.inr ⟨i, by omega, ?_⟩
        rw [Nat.add_right_comm x 1, Nat.add_assoc x, Nat.add_right_comm k 1, Nat.add_assoc k]

theorem mem_scan_from {w n y k : ℕ} {p : α} :
    p ∈ (scan f w n y k).1 ↔ ∃ j < n, ∃ i < w, p = f i (y + j) (k + j * w + i) := by
  induction n generalizing y k with
  | zero =>
    constructor
    · intro hp
      cases hp
    · rintro ⟨j, hj, _⟩
      omega
  | succ n ih =>
    rw [scan, List.mem_append, mem_row, row_snd, ih]
    constructor
    · rintro (⟨i, hi, rfl⟩ | ⟨j, hj, i, hi, rfl⟩)
      · exact ⟨0, Nat.succ_pos n, i, hi, by rw [Nat.zero_add, Nat.zero_mul]; rfl⟩
      · refine ⟨j + 1, by omega, i, hi, ?_⟩
        rw [Nat.succ_mul, Nat.add_right_comm y 1, Nat.add_assoc y, Nat.add_assoc k w,
          Nat.add_comm w]
    · rintro ⟨j, hj, i, hi, rfl⟩
      cases j with
      | zero => exact Or.inl ⟨i, hi, by rw [Nat.zero_add, Nat.zero_mul]; rfl⟩
      | succ j =>
        refine Or.inr ⟨j, by omega, i, hi, ?_⟩
        rw [Nat.succ_mul, Nat.add_right_comm y 1, Nat.add_assoc y, Nat.add_assoc k w,
          Nat.add_comm w]

/-- The rounds of the two loops. -/
theorem mem_scan {w h : ℕ} {p : α} :
    p ∈ (scan f w h 0 0).1 ↔ ∃ y < h, ∃ x < w, p = f x y (y * w + x) := by
  rw [mem_scan_from]
  simp only [Nat.zero_add]

end Raster
