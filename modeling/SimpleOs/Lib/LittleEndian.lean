import Mathlib.Algebra.Group.Nat.Defs
import Mathlib.Tactic.Common

/-!
# Words as bytes, the low byte first

`byteOf v i` is the byte with the number `i` of a word, `bytes n v` are its `n` low bytes as
they lie in memory, and `StoredAt b off n v` says that they stand at the offset `off` of a
block.

* `append_byteOf_zero`: which two bytes make the low half of a word.
-/

namespace LittleEndian

variable {w : ℕ}

def byteOf (v : BitVec w) (i : ℕ) : BitVec 8 := v.extractLsb' (8 * i) 8

def bytes (n : ℕ) (v : BitVec w) : List (BitVec 8) := (List.range n).map (byteOf v)

def StoredAt (b : ℕ → BitVec 8) (off n : ℕ) (v : BitVec w) : Prop :=
  ∀ i < n, b (off + i) = byteOf v i

instance (b : ℕ → BitVec 8) (off n : ℕ) (v : BitVec w) : Decidable (StoredAt b off n v) :=
  inferInstanceAs (Decidable (∀ i < n, _))

theorem toNat_byteOf (v : BitVec w) (i : ℕ) : (byteOf v i).toNat = v.toNat / 2 ^ (8 * i) % 256 := by
  unfold byteOf
  rw [BitVec.extractLsb'_toNat, Nat.shiftRight_eq_div_pow]

theorem toNat_append (hi lo : BitVec 8) : (hi ++ lo).toNat = 256 * hi.toNat + lo.toNat := by
  have hlo : lo.toNat < 2 ^ 8 := lo.isLt
  rw [BitVec.toNat_append, Nat.shiftLeft_eq, Nat.mul_comm, ← Nat.two_pow_add_eq_or_of_lt hlo]

/-- A byte above the lowest makes the low half of the word if and only if it is the second. -/
theorem append_byteOf_zero (v : BitVec w) (i : ℕ) :
    byteOf v i ++ byteOf v 0 = v.setWidth 16 ↔ byteOf v i = byteOf v 1 := by
  have h0 := toNat_byteOf v 0
  have h1 := toNat_byteOf v 1
  have hhalf : (v.setWidth 16).toNat = 256 * (byteOf v 1).toNat + (byteOf v 0).toNat := by
    rw [BitVec.toNat_setWidth]
    omega
  rw [← BitVec.toNat_inj, ← BitVec.toNat_inj, toNat_append, hhalf]
  omega

theorem byteOf_setWidth {u : ℕ} (v : BitVec w) {i : ℕ} (hi : 8 * i + 8 ≤ u) :
    byteOf (v.setWidth u) i = byteOf v i := by
  apply BitVec.eq_of_getLsbD_eq
  intro j hj
  unfold byteOf
  rw [BitVec.getLsbD_extractLsb', BitVec.getLsbD_extractLsb', BitVec.getLsbD_setWidth]
  have hlt : 8 * i + j < u := by omega
  simp [hlt]

/-! ## Masks and shifts by whole bytes -/

theorem byteOf_and (v mask : BitVec w) (i : ℕ) :
    byteOf (v &&& mask) i = byteOf v i &&& byteOf mask i := by
  apply BitVec.eq_of_getLsbD_eq
  intro j hj
  unfold byteOf
  simp only [BitVec.getLsbD_extractLsb', BitVec.getLsbD_and, hj, decide_true, Bool.true_and]

theorem byteOf_or (v v' : BitVec w) (i : ℕ) : byteOf (v ||| v') i = byteOf v i ||| byteOf v' i := by
  apply BitVec.eq_of_getLsbD_eq
  intro j hj
  unfold byteOf
  simp only [BitVec.getLsbD_extractLsb', BitVec.getLsbD_or, hj, decide_true, Bool.true_and]

theorem byteOf_shift (v : BitVec w) (k i : ℕ) : byteOf (v >>> (8 * k)) i = byteOf v (k + i) := by
  apply BitVec.eq_of_getLsbD_eq
  intro j hj
  unfold byteOf
  rw [BitVec.getLsbD_extractLsb', BitVec.getLsbD_extractLsb', BitVec.getLsbD_ushiftRight,
    ← Nat.add_assoc, Nat.mul_add]

theorem setWidth_eq_byteOf (v : BitVec w) : v.setWidth 8 = byteOf v 0 := by
  apply BitVec.eq_of_toNat_eq
  rw [toNat_byteOf, BitVec.toNat_setWidth, Nat.mul_zero, Nat.pow_zero, Nat.div_one]

theorem bytes_one (v : BitVec w) : bytes 1 v = [byteOf v 0] := rfl

theorem bytes_two (v : BitVec w) : bytes 2 v = [byteOf v 0, byteOf v 1] := rfl

end LittleEndian
