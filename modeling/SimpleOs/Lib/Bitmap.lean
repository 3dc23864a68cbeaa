import Mathlib.Data.Fintype.Card
import Mathlib.Data.Finset.Card

/-!
# Bitmaps

A bit vector read as the set of the numbers of its set bits. Setting and
clearing a bit are inserting and erasing its number; the first clear bit is the
first number missing, in the order of a loop from 0 on.
-/

namespace Bitmap

variable {w : ℕ} (b : BitVec w) (i j : Fin w)

/-- The numbers of the set bits. -/
def bits : Finset (Fin w) := Finset.univ.filter fun i => b.getLsbD i.val = true

theorem mem_bits : i ∈ bits b ↔ b.getLsbD i.val = true := by
  rw [bits, Finset.mem_filter]
  exact and_iff_right (Finset.mem_univ i)

theorem bits_injective : Function.Injective (bits : BitVec w → Finset (Fin w)) := by
  intro a b h
  apply BitVec.eq_of_getLsbD_eq
  intro k hk
  have hmem : (⟨k, hk⟩ : Fin w) ∈ bits a ↔ (⟨k, hk⟩ : Fin w) ∈ bits b := by rw [h]
  rw [mem_bits, mem_bits] at hmem
  exact Bool.eq_iff_iff.mpr hmem

theorem bits_zero : bits (0 : BitVec w) = ∅ := by
  apply Finset.eq_empty_of_forall_notMem
  intro i hi
  rw [mem_bits] at hi
  simp at hi

/-- `b |= 1 << i` and `b &= ~(1 << i)`. -/
def set : BitVec w := b ||| ((1 : BitVec w) <<< i.val)
def clear : BitVec w := b &&& ~~~((1 : BitVec w) <<< i.val)

theorem getLsbD_one_shift : ((1 : BitVec w) <<< i.val).getLsbD j.val = decide (j = i) := by
  have hj := j.isLt
  have hone : (1 : BitVec w).getLsbD (j.val - i.val) = decide (j.val - i.val = 0) := by
    change (1#w).getLsbD (j.val - i.val) = _
    have hpos : 0 < w := by omega
    simp [BitVec.getLsbD_one, hpos]
  rw [BitVec.getLsbD_shiftLeft, hone]
  by_cases h : j = i
  · simp [h]
  · have hne : j.val ≠ i.val := fun hc => h (Fin.ext hc)
    by_cases hlt : j.val < i.val
    · simp [h, hlt]
    · have hsub : j.val - i.val ≠ 0 := by omega
      simp [h, hsub]

theorem bits_set : bits (set b i) = insert i (bits b) := by
  ext j
  rw [mem_bits, Finset.mem_insert, mem_bits, set, BitVec.getLsbD_or, getLsbD_one_shift]
  simp [or_comm]

theorem bits_clear : bits (clear b i) = (bits b).erase i := by
  ext j
  have hj := j.isLt
  rw [mem_bits, Finset.mem_erase, mem_bits, clear, BitVec.getLsbD_and, BitVec.getLsbD_not,
    getLsbD_one_shift]
  simp [and_comm]

theorem clear_set (h : i ∉ bits b) : clear (set b i) i = b := by
  apply bits_injective
  rw [bits_clear, bits_set, Finset.erase_insert h]

/-- The number of the first clear bit. -/
def firstClear : Option (Fin w) := (List.finRange w).find? fun i => !b.getLsbD i.val

variable {b i}

theorem firstClear_notMem (h : firstClear b = some i) : i ∉ bits b := by
  rw [mem_bits]
  have := List.find?_some h
  simpa using this

theorem firstClear_eq_none : firstClear b = none ↔ bits b = Finset.univ := by
  rw [firstClear, List.find?_eq_none, Finset.eq_univ_iff_forall]
  simp [mem_bits]

end Bitmap
