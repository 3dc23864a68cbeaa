import Mathlib.Data.List.Basic
import Mathlib.Data.Nat.ModEq
import Mathlib.Logic.Function.Basic
import Mathlib.Tactic.Common

/-!
# Ring buffers

A buffer of `cap` cells with a head, a tail and a count, in which an index that
runs off the end comes back to 0. Both operations do what the usual C code does;
`Holds` says which list the buffer stands for, oldest element first.

* `push_holds`, `push_full`: an element is appended, or dropped when the buffer is
  full.
* `pop_holds`: the oldest element is taken out.
* `Fifo`: of what has been put in, in order, some has been taken out and the rest is in
  the buffer. `Fifo.push` and `Fifo.pop` keep it.
-/

namespace Ring

variable {α : Type*}

/-- The buffer and its two indices. -/
structure RingBuffer (α : Type*) where
  buf : ℕ → α
  head : ℕ
  tail : ℕ
  count : ℕ

/-- The index behind `i`. -/
def advance (cap i : ℕ) : ℕ := if i + 1 = cap then 0 else i + 1

/-- `if (count < cap) { *head = x; ++head; wrap; ++count; }`. -/
def push (cap : ℕ) (r : RingBuffer α) (x : α) : RingBuffer α :=
  if r.count < cap then
    { buf := Function.update r.buf r.head x
      head := advance cap r.head
      tail := r.tail
      count := r.count + 1 }
  else r

/-- `x = *tail; ++tail; wrap; --count;`. -/
def pop (cap : ℕ) (r : RingBuffer α) : α × RingBuffer α :=
  (r.buf r.tail, { r with tail := advance cap r.tail, count := r.count - 1 })

/-- The buffer stands for the list `xs`. -/
structure Holds (cap : ℕ) (r : RingBuffer α) (xs : List α) : Prop where
  tail : r.tail < cap
  head : r.head = (r.tail + xs.length) % cap
  count : r.count = xs.length
  le : xs.length ≤ cap
  get : ∀ i (h : i < xs.length), r.buf ((r.tail + i) % cap) = xs[i]

variable {cap : ℕ} {r : RingBuffer α} {x : α} {xs : List α}

theorem advance_lt {i : ℕ} (h : i < cap) : advance cap i < cap := by
  unfold advance
  split_ifs <;> omega

theorem advance_eq {i : ℕ} (h : i < cap) : advance cap i = (i + 1) % cap := by
  unfold advance
  split_ifs with hlast
  · rw [hlast, Nat.mod_self]
  · rw [Nat.mod_eq_of_lt (by omega)]

/-- Two offsets from the tail that are less than a round apart. -/
theorem offset_ne {t i j : ℕ} (hij : i < j) (hj : j < cap) : (t + i) % cap ≠ (t + j) % cap := by
  intro h
  have hmod : t + i ≡ t + j [MOD cap] := h
  have hij' : i ≡ j [MOD cap] := hmod.add_left_cancel' t
  have heq : i = j := by
    rwa [Nat.ModEq, Nat.mod_eq_of_lt (by omega), Nat.mod_eq_of_lt hj] at hij'
  omega

/-- A buffer with both indices at 0 and no element. -/
theorem holds_empty (buf : ℕ → α) (h : 0 < cap) : Holds cap ⟨buf, 0, 0, 0⟩ [] :=
  ⟨h, (Nat.zero_mod cap).symm, rfl, Nat.zero_le cap, fun i hi => absurd hi (Nat.not_lt_zero i)⟩

theorem Holds.head_lt (h : Holds cap r xs) : r.head < cap := by
  have hcap : 0 < cap := Nat.zero_lt_of_lt h.tail
  rw [h.head]
  exact Nat.mod_lt _ hcap

/-- The operations only look at the cells of the list. -/
theorem push_holds (h : Holds cap r xs) (hroom : xs.length < cap) :
    Holds cap (push cap r x) (xs ++ [x]) := by
  have hcount : r.count < cap := by rw [h.count]; exact hroom
  have hlen : (xs ++ [x]).length = xs.length + 1 := List.length_append
  rw [push, if_pos hcount]
  refine ⟨h.tail, ?_, ?_, by omega, fun i hi => ?_⟩
  · show advance cap r.head = (r.tail + (xs ++ [x]).length) % cap
    rw [advance_eq h.head_lt, h.head, hlen, Nat.mod_add_mod]
    congr 1
  · show r.count + 1 = (xs ++ [x]).length
    rw [hlen, h.count]
  · show Function.update r.buf r.head x ((r.tail + i) % cap) = (xs ++ [x])[i]
    rw [hlen] at hi
    rcases Nat.lt_or_ge i xs.length with hold | hnew
    · rw [h.head, Function.update_of_ne (offset_ne hold hroom), h.get i hold,
        List.getElem_append_left hold]
    · obtain rfl : i = xs.length := by omega
      rw [h.head, Function.update_self, List.getElem_concat_length]
      rfl

theorem push_full (h : Holds cap r xs) (hfull : xs.length = cap) : push cap r x = r := by
  have hcount : ¬ r.count < cap := by
    rw [h.count]
    omega
  rw [push, if_neg hcount]

theorem pop_holds (h : Holds cap r (x :: xs)) :
    (pop cap r).1 = x ∧ Holds cap (pop cap r).2 xs := by
  have hlen : (x :: xs).length = xs.length + 1 := List.length_cons
  have hle := h.le
  have hcount := h.count
  refine ⟨?_, advance_lt h.tail, ?_, ?_, by omega, fun i hi => ?_⟩
  · have hfirst := h.get 0 (by omega)
    rwa [Nat.add_zero, Nat.mod_eq_of_lt h.tail] at hfirst
  · show r.head = (advance cap r.tail + xs.length) % cap
    rw [h.head, advance_eq h.tail, hlen, Nat.mod_add_mod]
    congr 1
    omega
  · show r.count - 1 = xs.length
    omega
  · show r.buf ((advance cap r.tail + i) % cap) = xs[i]
    have hnext := h.get (i + 1) (by omega)
    rw [advance_eq h.tail, Nat.mod_add_mod, show r.tail + 1 + i = r.tail + (i + 1) by omega, hnext]
    rfl

/-! ## First in, first out -/

/-- Both indices are in the buffer. -/
structure InBounds (cap : ℕ) (r : RingBuffer α) : Prop where
  head : r.head < cap
  tail : r.tail < cap
  count : r.count ≤ cap

/-- The head is `count` places ahead of the tail. -/
structure Consistent (cap : ℕ) (r : RingBuffer α) : Prop extends InBounds cap r where
  ahead : r.head = (r.tail + r.count) % cap

/-- The `count` elements from the tail on. -/
def contents (cap : ℕ) (r : RingBuffer α) : List α :=
  (List.range r.count).map fun i => r.buf ((r.tail + i) % cap)

/-- `accepted` has been put in, and `taken` has been taken out. -/
structure Fifo (cap : ℕ) (r : RingBuffer α) (accepted taken : List α) : Prop
    extends Consistent cap r where
  split : accepted = taken ++ contents cap r

variable {accepted taken : List α}

theorem InBounds.push (h : InBounds cap r) (x : α) : InBounds cap (push cap r x) := by
  obtain ⟨hhead, htail, hcount⟩ := h
  unfold Ring.push
  split_ifs with hroom
  · exact ⟨advance_lt hhead, htail, hroom⟩
  · exact ⟨hhead, htail, hcount⟩

theorem InBounds.pop (h : InBounds cap r) : InBounds cap (pop cap r).2 :=
  ⟨h.head, advance_lt h.tail, Nat.le_trans (Nat.sub_le ..) h.count⟩

theorem Holds.consistent (h : Holds cap r xs) : Consistent cap r := by
  refine ⟨⟨h.head_lt, h.tail, ?_⟩, ?_⟩
  · rw [h.count]
    exact h.le
  · rw [h.head, h.count]

theorem Holds.contents (h : Holds cap r xs) : contents cap r = xs := by
  apply List.ext_getElem
  · simp [Ring.contents, h.count]
  · intro i hi hxs
    simp [Ring.contents, h.get i hxs]

theorem Consistent.holds (h : Consistent cap r) : Holds cap r (contents cap r) := by
  have hlen : (contents cap r).length = r.count := by simp [contents]
  refine ⟨h.tail, ?_, hlen.symm, ?_, fun i hi => ?_⟩
  · rw [hlen]
    exact h.ahead
  · rw [hlen]
    exact h.count
  · simp [contents]

theorem fifo_iff : Fifo cap r accepted taken ↔ ∃ xs, Holds cap r xs ∧ accepted = taken ++ xs := by
  constructor
  · intro h
    exact ⟨_, h.toConsistent.holds, h.split⟩
  · rintro ⟨xs, hxs, hsplit⟩
    refine ⟨hxs.consistent, ?_⟩
    rw [hxs.contents, hsplit]

theorem Fifo.empty (buf : ℕ → α) (h : 0 < cap) : Fifo cap ⟨buf, 0, 0, 0⟩ [] [] :=
  fifo_iff.mpr ⟨[], holds_empty buf h, rfl⟩

/-- An element that does not fit is dropped. -/
theorem Fifo.push (h : Fifo cap r accepted taken) (x : α) :
    Fifo cap (push cap r x) (if r.count < cap then accepted ++ [x] else accepted) taken := by
  obtain ⟨xs, hxs, hsplit⟩ := fifo_iff.mp h
  have hcount : r.count = xs.length := hxs.count
  split_ifs with hroom
  · refine fifo_iff.mpr ⟨xs ++ [x], push_holds hxs (by omega), ?_⟩
    rw [hsplit, List.append_assoc]
  · have hfull : xs.length = cap := by
      have hle := hxs.le
      omega
    rw [push_full hxs hfull]
    exact h

theorem Fifo.pop (h : Fifo cap r accepted taken) (hcount : r.count ≠ 0) :
    Fifo cap (pop cap r).2 accepted (taken ++ [(pop cap r).1]) := by
  obtain ⟨xs, hxs, hsplit⟩ := fifo_iff.mp h
  cases xs with
  | nil => exact absurd hxs.count hcount
  | cons x xs =>
    obtain ⟨hx, hrest⟩ := pop_holds hxs
    refine fifo_iff.mpr ⟨xs, hrest, ?_⟩
    rw [hx, hsplit, List.append_assoc]
    rfl

end Ring
