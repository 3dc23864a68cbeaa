import SimpleOs.Lib.ByteMem

/-!
# Memory that is only partly there

Some addresses are backed by memory and keep what is stored there; a store leaves the
others as they are, and they read as before. A word is found out by storing patterns and
reading them back.

* `store_store`, `store_readWord`: storing what was read first undoes every store at the
  address.
* `not_both_kept`: of two patterns that differ in every byte, a word that is not wholly
  backed keeps at most one.
-/

namespace ByteMem

/-! ## The bytes of a word -/

/-- A byte of the word at `a`. -/
theorem readWord_byte (mem : Mem) (a : Addr) {i : ℕ} (hi : i < 4) :
    (readWord mem a).extractLsb' (8 * i) 8 = mem (a + BitVec.ofNat 32 i) := by
  have hcases : i = 0 ∨ i = 1 ∨ i = 2 ∨ i = 3 := by omega
  apply BitVec.eq_of_getLsbD_eq
  intro j hj
  simp only [readWord, BitVec.getLsbD_extractLsb', BitVec.getLsbD_append, hj]
  rcases hcases with rfl | rfl | rfl | rfl
  · simp [hj]
  · simp [show ¬ 8 + j < 8 by omega, hj]
  · simp [show ¬ 16 + j < 8 by omega, show ¬ 16 + j - 8 < 8 by omega,
      show 16 + j - 8 - 8 = j by omega, hj]
  · simp [show ¬ 24 + j < 8 by omega, show ¬ 24 + j - 8 < 8 by omega,
      show ¬ 24 + j - 8 - 8 < 8 by omega, show 24 + j - 8 - 8 - 8 = j by omega]

/-- The bytes of the block at `a` are the four after it. -/
theorem inBlock_four {a b : Addr} :
    InBlock a 4 b ↔ ∃ i < 4, b = a + BitVec.ofNat 32 i := by
  constructor
  · intro h
    exact ⟨(b - a).toNat, h, by rw [BitVec.ofNat_toNat, BitVec.setWidth_eq]; bv_omega⟩
  · rintro ⟨i, hi, rfl⟩
    exact inBlock_add hi (by omega)

/-- Storing the word at `a` again leaves every byte of it. -/
theorem writeWord_readWord (mem mem' : Mem) (a : Addr) {b : Addr} (hb : InBlock a 4 b) :
    writeWord mem' a (readWord mem a) b = mem b := by
  obtain ⟨i, hi, rfl⟩ := inBlock_four.mp hb
  have hbyte := readWord_byte (writeWord mem' a (readWord mem a)) a hi
  rw [readWord_writeWord, readWord_byte mem a hi] at hbyte
  exact hbyte.symm

/-! ## Stores -/

/-- Store the word `v` at `a` as far as memory backs its bytes. -/
def store (backed : Addr → Bool) (mem : Mem) (a : Addr) (v : BitVec 32) : Mem := fun b =>
  if backed b then writeWord mem a v b else mem b

/-- The four bytes at `a` are all backed. -/
def Whole (backed : Addr → Bool) (a : Addr) : Prop :=
  ∀ i < 4, backed (a + BitVec.ofNat 32 i) = true

instance (backed : Addr → Bool) (a : Addr) : Decidable (Whole backed a) :=
  inferInstanceAs (Decidable (∀ i < 4, _))

variable {backed : Addr → Bool} {mem : Mem} {a : Addr} {v w : BitVec 32}

theorem store_out {b : Addr} (h : ¬ InBlock a 4 b) : store backed mem a v b = mem b := by
  unfold store
  rw [writeWord_out h, ite_self]

/-- Of two stores at the same address the second counts. -/
theorem store_store : store backed (store backed mem a v) a w = store backed mem a w := by
  funext b
  simp only [store, writeWord]
  split_ifs <;> rfl

/-- Storing what was read changes nothing. -/
theorem store_readWord : store backed mem a (readWord mem a) = mem := by
  funext b
  by_cases hb : InBlock a 4 b
  · unfold store
    rw [writeWord_readWord mem mem a hb, ite_self]
  · exact store_out hb

theorem readWord_store (h : Whole backed a) : readWord (store backed mem a v) a = v := by
  have hbytes : readWord (store backed mem a v) a = readWord (writeWord mem a v) a :=
    readWord_congr fun i hi => by
      unfold store
      rw [if_pos (h i hi)]
  rw [hbytes]
  exact readWord_writeWord mem a v

/-- A byte that is not backed reads as before. -/
theorem readWord_store_byte {i : ℕ} (hi : i < 4)
    (h : ¬ backed (a + BitVec.ofNat 32 i) = true) :
    (readWord (store backed mem a v) a).extractLsb' (8 * i) 8 = mem (a + BitVec.ofNat 32 i) := by
  rw [readWord_byte _ _ hi]
  unfold store
  exact if_neg h

/-- Whatever is stored, the word does not read first as the one pattern and then as the
    other. -/
theorem not_both_kept {p q : BitVec 32} (h : ¬ Whole backed a)
    (hpq : ∀ i < 4, p.extractLsb' (8 * i) 8 ≠ q.extractLsb' (8 * i) 8)
    (hp : readWord (store backed mem a v) a = p) (hq : readWord (store backed mem a w) a = q) :
    False := by
  unfold Whole at h
  push Not at h
  obtain ⟨i, hi, hback⟩ := h
  have hone := @readWord_store_byte backed mem a v i hi hback
  have htwo := @readWord_store_byte backed mem a w i hi hback
  rw [hp] at hone
  rw [hq] at htwo
  exact hpq i hi (hone.trans htwo.symm)

end ByteMem
