import Mathlib.Algebra.Group.Nat.Defs
import Mathlib.Tactic.Common

/-!
# Layouts of two passes

A first pass gives every item of a list its offset: behind the item before it, and behind as
much padding as it asks for. A second pass writes the items one after the other, each behind
its padding. `Laid` says what the first pass has done and `emit` is what the second writes.

* `Laid.bounds`, `Laid.pairwise`: the items are apart and in order.
* `Laid.emit_at`: what the second pass writes for an item stands at its offset.
-/

namespace Layout

variable {α β : Type*}

/-- The items stand between `cur` and `fin`, each `pad` bytes behind the end of the one
    before it and `space` bytes long. -/
def Laid (pad offset space : α → ℕ) : ℕ → List α → ℕ → Prop
  | cur, [], fin => cur = fin
  | cur, a :: l, fin => offset a = cur + pad a ∧ Laid pad offset space (offset a + space a) l fin

/-- The items as they are written. -/
def emit (fill : β) (pad : α → ℕ) (body : α → List β) (l : List α) : List β :=
  l.flatMap fun a => List.replicate (pad a) fill ++ body a

section

variable {pad offset space : α → ℕ} {cur mid fin : ℕ} {l l' : List α}

theorem Laid.append (h : Laid pad offset space cur l mid) (h' : Laid pad offset space mid l' fin) :
    Laid pad offset space cur (l ++ l') fin := by
  induction l generalizing cur with
  | nil =>
    obtain rfl : cur = mid := h
    exact h'
  | cons a l ih => exact ⟨h.1, ih h.2⟩

theorem laid_map {γ : Type*} {f : γ → α} {l : List γ} :
    Laid (fun c => pad (f c)) (fun c => offset (f c)) (fun c => space (f c)) cur l fin ↔
      Laid pad offset space cur (l.map f) fin := by
  induction l generalizing cur with
  | nil => rfl
  | cons c l ih => exact and_congr_right fun _ => ih

theorem Laid.le (h : Laid pad offset space cur l fin) : cur ≤ fin := by
  induction l generalizing cur with
  | nil => exact Nat.le_of_eq h
  | cons a l ih =>
    have hle := ih h.2
    have hoff := h.1
    omega

/-- An item stands between the two ends, behind its padding. -/
theorem Laid.bounds (h : Laid pad offset space cur l fin) {a : α} (ha : a ∈ l) :
    cur + pad a ≤ offset a ∧ offset a + space a ≤ fin := by
  induction l generalizing cur with
  | nil => exact absurd ha List.not_mem_nil
  | cons b l ih =>
    have hoff := h.1
    rcases List.mem_cons.mp ha with rfl | ha
    · exact ⟨Nat.le_of_eq hoff.symm, h.2.le⟩
    · have hb := ih h.2 ha
      omega

/-- There is no room for more items. -/
theorem Laid.length_le (h : Laid pad offset space cur l fin) {k : ℕ} (hk : ∀ a ∈ l, k ≤ space a) :
    cur + k * l.length ≤ fin := by
  induction l generalizing cur with
  | nil => exact Nat.le_of_eq h
  | cons a l ih =>
    have hoff := h.1
    have ha := hk a (List.mem_cons_self ..)
    have hle := ih h.2 fun b hb => hk b (List.mem_cons_of_mem _ hb)
    rw [List.length_cons, Nat.mul_succ]
    omega

/-- An item ends before the next one. -/
theorem Laid.pairwise (h : Laid pad offset space cur l fin) :
    l.Pairwise fun a b => offset a + space a ≤ offset b := by
  induction l generalizing cur with
  | nil => exact .nil
  | cons a l ih =>
    refine .cons (fun b hb => ?_) (ih h.2)
    have hbounds := h.2.bounds hb
    omega

end

section

variable (fill : β) {pad offset space : α → ℕ} {body : α → List β} {cur fin : ℕ} {l : List α}

/-- The second pass ends where the first one did. -/
theorem Laid.length_emit (h : Laid pad offset space cur l fin)
    (hbody : ∀ a ∈ l, (body a).length = space a) :
    cur + (emit fill pad body l).length = fin := by
  induction l generalizing cur with
  | nil => exact h
  | cons a l ih =>
    have hoff := h.1
    have ha := hbody a (List.mem_cons_self ..)
    have htail := ih h.2 fun b hb => hbody b (List.mem_cons_of_mem _ hb)
    rw [emit, List.flatMap_cons, ← emit, List.length_append, List.length_append,
      List.length_replicate, ha]
    omega

/-- An item stands at its offset, whatever is written before the first item and behind the
    last one. -/
theorem Laid.emit_at (h : Laid pad offset space cur l fin)
    (hbody : ∀ a ∈ l, (body a).length = space a) {front tail : List β}
    (hfront : front.length = cur) {a : α} (ha : a ∈ l) :
    body a <+: (front ++ emit fill pad body l ++ tail).drop (offset a) := by
  induction l generalizing cur front with
  | nil => exact absurd ha List.not_mem_nil
  | cons b l ih =>
    have hoff := h.1
    have hb := hbody b (List.mem_cons_self ..)
    -- the first item becomes a part of what stands before the rest
    set front' := front ++ List.replicate (pad b) fill with hfront'
    have hlen : front'.length = offset b := by
      rw [hfront', List.length_append, List.length_replicate]
      omega
    have hsplit : front ++ emit fill pad body (b :: l) ++ tail =
        front' ++ body b ++ emit fill pad body l ++ tail := by
      rw [emit, List.flatMap_cons, ← emit, hfront']
      simp only [List.append_assoc]
    rw [hsplit]
    rcases List.mem_cons.mp ha with rfl | ha
    · rw [List.append_assoc, List.append_assoc, List.drop_append_of_le_length (by omega),
        List.drop_eq_nil_of_le (by omega), List.nil_append]
      exact List.prefix_append _ _
    · apply ih h.2 (fun c hc => hbody c (List.mem_cons_of_mem _ hc)) _ ha
      rw [List.length_append, hlen, hb]

end

end Layout
