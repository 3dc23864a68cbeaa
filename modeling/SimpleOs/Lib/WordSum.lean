import Mathlib.Algebra.Group.Nat.Defs
import Mathlib.Tactic.Common

/-!
# Sums of words

`wordBytes w` are the bytes of a word, the high byte first, and `wordSum l` is the sum of the
words that a list of bytes is made of, modulo `2 ^ 32`. A file format that checks such a sum
reserves a word for it and stores there what makes the sum 0.

* `wordSum_append`: sums add up over parts that are made of whole words.
* `wordSum_seal`: a sum is 0 behind the word that completes it.
-/

namespace WordSum

/-- The bytes of a word, the high byte first. -/
def wordBytes (w : BitVec 32) : List (BitVec 8) :=
  [w.extractLsb' 24 8, w.extractLsb' 16 8, w.extractLsb' 8 8, w.extractLsb' 0 8]

/-- The sum of the words of a list; up to three bytes at its end are left out. -/
def wordSum : List (BitVec 8) → BitVec 32
  | b3 :: b2 :: b1 :: b0 :: l => (b3 ++ b2 ++ b1 ++ b0) + wordSum l
  | _ => 0

/-- The first word of a list. -/
def firstWord : List (BitVec 8) → BitVec 32
  | b3 :: b2 :: b1 :: b0 :: _ => b3 ++ b2 ++ b1 ++ b0
  | _ => 0

/-- `w` in place of the word at `pos`. -/
def setWord (pos : ℕ) (w : BitVec 32) (l : List (BitVec 8)) : List (BitVec 8) :=
  l.take pos ++ wordBytes w ++ l.drop (pos + 4)

@[simp] theorem length_wordBytes (w : BitVec 32) : (wordBytes w).length = 4 := rfl

/-- The bytes of the first word. -/
theorem exists_cons_four {l : List (BitVec 8)} (h : 4 ≤ l.length) :
    ∃ b3 b2 b1 b0 t, l = b3 :: b2 :: b1 :: b0 :: t := by
  rcases l with _ | ⟨b3, _ | ⟨b2, _ | ⟨b1, _ | ⟨b0, t⟩⟩⟩⟩
  · simp at h
  · simp at h
  · simp at h
  · simp at h
  · exact ⟨b3, b2, b1, b0, t, rfl⟩

/-- The bytes of a word make the word. -/
theorem append_wordBytes (w : BitVec 32) :
    (w.extractLsb' 24 8 ++ w.extractLsb' 16 8 ++ w.extractLsb' 8 8 ++ w.extractLsb' 0 8 :
      BitVec 32) = w := by
  apply BitVec.eq_of_getLsbD_eq
  intro i hi
  simp only [BitVec.getLsbD_append, BitVec.getLsbD_extractLsb']
  -- which of the bytes has the bit
  by_cases h0 : i < 8
  · simp [h0]
  · by_cases h1 : i - 8 < 8
    · simp [h0, h1, show 8 + (i - 8) = i by omega]
    · by_cases h2 : i - 8 - 8 < 8
      · simp [h0, h1, h2, show 16 + (i - 8 - 8) = i by omega]
      · simp [h0, h1, h2, show 24 + (i - 8 - 8 - 8) = i by omega,
          show i - 8 - 8 - 8 < 8 by omega]

theorem firstWord_wordBytes (w : BitVec 32) (l : List (BitVec 8)) :
    firstWord (wordBytes w ++ l) = w := append_wordBytes w

theorem firstWord_take (l : List (BitVec 8)) {n : ℕ} (hn : 4 ≤ n) :
    firstWord (l.take n) = firstWord l := by
  by_cases hl : 4 ≤ l.length
  · obtain ⟨b3, b2, b1, b0, t, rfl⟩ := exists_cons_four hl
    obtain ⟨m, rfl⟩ := Nat.exists_eq_add_of_le' hn
    rfl
  · rw [List.take_of_length_le (by omega)]

theorem wordSum_wordBytes (w : BitVec 32) (l : List (BitVec 8)) :
    wordSum (wordBytes w ++ l) = w + wordSum l := by
  change (_ : BitVec 32) + wordSum l = w + wordSum l
  rw [append_wordBytes]

theorem wordSum_append (a b : List (BitVec 8)) (ha : a.length % 4 = 0) :
    wordSum (a ++ b) = wordSum a + wordSum b := by
  fun_induction wordSum a with
  | case1 b3 b2 b1 b0 l ih =>
    have hl : l.length % 4 = 0 := by
      simp only [List.length_cons] at ha
      omega
    rw [BitVec.add_assoc, ← ih hl]
    rfl
  | case2 l hl =>
    -- a list of less than a word is empty
    have hnil : l = [] := by
      match l, hl, ha with
      | [], _, _ => rfl
      | [_], _, ha => simp at ha
      | [_, _], _, ha => simp at ha
      | [_, _, _], _, ha => simp at ha
      | b3 :: b2 :: b1 :: b0 :: l, hl, _ => exact absurd rfl (hl b3 b2 b1 b0 l)
    rw [hnil, List.nil_append]
    exact (BitVec.zero_add _).symm

section

variable {l : List (BitVec 8)} {pos : ℕ} (w : BitVec 32)

@[simp] theorem length_setWord (h : pos + 4 ≤ l.length) : (setWord pos w l).length = l.length := by
  simp only [setWord, List.length_append, List.length_take, length_wordBytes, List.length_drop]
  omega

theorem take_setWord {n : ℕ} (hn : n ≤ pos) (h : pos + 4 ≤ l.length) :
    (setWord pos w l).take n = l.take n := by
  have hlen : (l.take pos).length = pos := by rw [List.length_take]; omega
  rw [setWord, List.append_assoc, List.take_append_of_le_length (by omega), List.take_take,
    Nat.min_eq_left hn]

theorem drop_setWord {n : ℕ} (hn : pos + 4 ≤ n) (h : pos + 4 ≤ l.length) :
    (setWord pos w l).drop n = l.drop n := by
  have hlen : (l.take pos ++ wordBytes w).length = pos + 4 := by
    rw [List.length_append, List.length_take, length_wordBytes]
    omega
  rw [setWord, List.drop_append, hlen, List.drop_eq_nil_of_le (by omega), List.nil_append,
    List.drop_drop, show pos + 4 + (n - (pos + 4)) = n by omega]

/-- The word at `pos` in the sum. -/
theorem wordSum_setWord (hpos : pos % 4 = 0) (h : pos + 4 ≤ l.length) :
    wordSum (setWord pos w l) = wordSum (l.take pos) + w + wordSum (l.drop (pos + 4)) := by
  have hlen : (l.take pos).length % 4 = 0 := by rw [List.length_take]; omega
  rw [setWord, List.append_assoc, wordSum_append _ _ hlen, wordSum_wordBytes, BitVec.add_assoc]

/-- The word that completes the sum, over `n` bytes of a list. -/
theorem wordSum_seal {n : ℕ} (hpos : pos % 4 = 0) (hn : pos + 4 ≤ n) (h : n ≤ l.length) :
    wordSum ((setWord pos (-wordSum ((setWord pos 0 l).take n)) l).take n) = 0 := by
  have htake : ∀ w, (setWord pos w l).take n = setWord pos w (l.take n) := by
    intro w
    have hlen : (l.take pos ++ wordBytes w).length = pos + 4 := by
      rw [List.length_append, List.length_take, length_wordBytes]
      omega
    rw [setWord, setWord, List.take_append, hlen, List.take_of_length_le (by omega),
      List.take_take, Nat.min_eq_left (by omega), List.drop_take]
  have hlen : pos + 4 ≤ (l.take n).length := by rw [List.length_take]; omega
  rw [htake, htake, wordSum_setWord _ hpos hlen, wordSum_setWord _ hpos hlen]
  generalize wordSum ((l.take n).take pos) = a
  generalize wordSum ((l.take n).drop (pos + 4)) = b
  bv_omega

end

end WordSum
