import Mathlib.Data.List.Basic
import Mathlib.Logic.Function.Basic
import Mathlib.Tactic.Common

/-!
# Lists laid over a buffer

A buffer is a function from offsets. `put f p l` is the buffer `f` with the elements of `l`
from `p` on, and `mirror f lo hi` is `f` with the part from `lo` to `hi` turned around.

* `put_cons`, `put_append`: writing a list one element, or one part, after the other.
* `Diverge.put_ne`: lists that differ at some place leave different buffers.
* `mirror_swap`: turning around is exchanging the ends and then turning around the rest.
* `mirror_put`: the part that is turned around is a list.
-/

namespace Overlay

variable {α : Type*} {f : ℕ → α} {p i lo hi : ℕ} {l t : List α} {c : α}

def put (f : ℕ → α) (p : ℕ) (l : List α) : ℕ → α := fun i =>
  if p ≤ i then l[i - p]?.getD (f i) else f i

/-! ## Writing -/

theorem put_of_lt (h : i < p) : put f p l i = f i := if_neg (by omega)

theorem put_add (h : i < l.length) : put f p l (p + i) = l[i] := by
  unfold put
  rw [if_pos (by omega), Nat.add_sub_cancel_left, List.getElem?_eq_getElem h]
  rfl

theorem put_head : put f p (c :: l) p = c := put_add (l := c :: l) (i := 0) (Nat.succ_pos _)

theorem put_add_mem (h : i < l.length) : put f p (l ++ t) (p + i) ∈ l := by
  rw [put_add (by rw [List.length_append]; omega), List.getElem_append_left h]
  exact List.getElem_mem h

@[simp] theorem put_nil : put f p [] = f := by
  funext i
  unfold put
  split_ifs
  · rfl
  · rfl

theorem put_cons : put f p (c :: l) = put (Function.update f p c) (p + 1) l := by
  funext i
  rcases Nat.lt_trichotomy i p with hi | rfl | hi
  · rw [put_of_lt hi, put_of_lt (by omega), Function.update_of_ne (by omega)]
  · rw [put_of_lt (Nat.lt_succ_self i), Function.update_self]
    exact put_head
  · unfold put
    have hsub : i - p = i - (p + 1) + 1 := by omega
    rw [if_pos (by omega), if_pos (by omega), hsub, List.getElem?_cons_succ,
      Function.update_of_ne (by omega)]

theorem put_append : put f p (l ++ t) = put (put f p l) (p + l.length) t := by
  induction l generalizing f p with
  | nil => rw [List.nil_append, put_nil, List.length_nil, Nat.add_zero]
  | cons c l ih =>
    have hlen : p + (c :: l).length = p + 1 + l.length := by
      rw [List.length_cons]
      omega
    rw [List.cons_append, put_cons, ih, put_cons, hlen]

theorem put_singleton : put f p [c] = Function.update f p c := by rw [put_cons, put_nil]

/-- Two lists, at some place of both, have different elements for the first time. -/
def Diverge (l t : List α) : Prop :=
  ∃ pre a b s u, l = pre ++ a :: s ∧ t = pre ++ b :: u ∧ a ≠ b

theorem Diverge.after (h : Diverge l t) (pre : List α) : Diverge (pre ++ l) (pre ++ t) := by
  obtain ⟨mid, a, b, s, u, rfl, rfl, hne⟩ := h
  exact ⟨pre ++ mid, a, b, s, u, by simp, by simp, hne⟩

theorem Diverge.before (h : Diverge l t) (s u : List α) : Diverge (l ++ s) (t ++ u) := by
  obtain ⟨pre, a, b, s', u', rfl, rfl, hne⟩ := h
  exact ⟨pre, a, b, s' ++ s, u' ++ u, by simp, by simp, hne⟩

theorem Diverge.ne (h : Diverge l t) : l ≠ t := by
  obtain ⟨pre, a, b, s, u, rfl, rfl, hne⟩ := h
  simp [hne]

theorem Diverge.put_ne (h : Diverge l t) : put f p l ≠ put f p t := by
  obtain ⟨pre, a, b, s, u, rfl, rfl, hne⟩ := h
  intro heq
  have hat := congrFun heq (p + pre.length)
  rw [put_append, put_append, put_head, put_head] at hat
  exact hne hat

theorem map_put (f : ℕ → α) (l : List α) : (List.range l.length).map (put f 0 l) = l := by
  refine List.ext_getElem (by rw [List.length_map, List.length_range]) fun i _ hi => ?_
  have hadd : put f 0 l (0 + i) = l[i] := put_add hi
  rw [Nat.zero_add] at hadd
  rw [List.getElem_map, List.getElem_range, hadd]

/-! ## Turning around -/

def mirror (f : ℕ → α) (lo hi : ℕ) : ℕ → α := fun i =>
  if lo ≤ i ∧ i ≤ hi then f (lo + hi - i) else f i

/-- The ends exchanged. -/
def swap (f : ℕ → α) (lo hi : ℕ) : ℕ → α := Function.update (Function.update f lo (f hi)) hi (f lo)

theorem swap_of_between (hlo : lo < i) (hhi : i < hi) : swap f lo hi i = f i := by
  unfold swap
  rw [Function.update_of_ne (by omega), Function.update_of_ne (by omega)]

theorem mirror_of_le (h : hi ≤ lo) : mirror f lo hi = f := by
  funext i
  unfold mirror
  by_cases hi : lo ≤ i ∧ i ≤ hi
  · rw [if_pos hi]
    congr 1
    omega
  · rw [if_neg hi]

theorem mirror_swap (h : lo < hi + 1) :
    mirror (swap f lo (hi + 1)) (lo + 1) hi = mirror f lo (hi + 1) := by
  funext i
  unfold mirror
  by_cases hinner : lo + 1 ≤ i ∧ i ≤ hi
  · rw [if_pos hinner, if_pos (by omega), swap_of_between (by omega) (by omega)]
    congr 1
    omega
  · rw [if_neg hinner]
    unfold swap
    by_cases hlast : i = hi + 1
    · rw [hlast, Function.update_self, if_pos (by omega), Nat.add_sub_cancel]
    · rw [Function.update_of_ne hlast]
      by_cases hfirst : i = lo
      · rw [hfirst, Function.update_self, if_pos (by omega), Nat.add_sub_cancel_left]
      · rw [Function.update_of_ne hfirst, if_neg (by omega)]

theorem mirror_put (hl : l ≠ []) :
    mirror (put f p (l ++ t)) p (p + l.length - 1) = put f p (l.reverse ++ t) := by
  have hpos := List.length_pos_iff.mpr hl
  funext i
  unfold mirror
  by_cases hi : p ≤ i ∧ i ≤ p + l.length - 1
  · obtain ⟨k, rfl⟩ := Nat.exists_eq_add_of_le hi.1
    have hk : p + (p + l.length - 1) - (p + k) = p + (l.length - 1 - k) := by omega
    rw [if_pos hi, hk, put_add (by rw [List.length_append]; omega),
      put_add (by rw [List.length_append, List.length_reverse]; omega),
      List.getElem_append_left (by omega),
      List.getElem_append_left (by rw [List.length_reverse]; omega), List.getElem_reverse]
  · rw [if_neg hi]
    by_cases hlt : i < p
    · rw [put_of_lt hlt, put_of_lt hlt]
    · have hrest : l[i - p]? = none := List.getElem?_eq_none (by omega)
      have hrest' : l.reverse[i - p]? = none :=
        List.getElem?_eq_none (by rw [List.length_reverse]; omega)
      have hlen : p + l.reverse.length = p + l.length := by rw [List.length_reverse]
      rw [put_append, put_append, hlen]
      unfold put
      rw [hrest, hrest']

end Overlay
