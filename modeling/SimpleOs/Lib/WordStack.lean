import SimpleOs.Lib.ByteMem

/-!
# A stack of words

A stack that grows to lower addresses. `WordsAt mem a l` says that the words of `l` lie one
behind the other from `a` on; what is pushed last has the lowest address.

* `push_words`: pushed words lie on the stack, and nothing else has changed.
* `WordsAt.word`: a word of the list, by its number.
-/

namespace WordStack

open ByteMem

/-- The words from `a` on. -/
def WordsAt (mem : Mem) : Addr → List (BitVec 32) → Prop
  | _, [] => True
  | a, w :: l => readWord mem a = w ∧ WordsAt mem (a + 4) l

/-- Push a word. -/
def push (w : BitVec 32) (s : Mem × Addr) : Mem × Addr := (writeWord s.1 (s.2 - 4) w, s.2 - 4)

variable {mem mem' : Mem} {a top : Addr} {l : List (BitVec 32)}

/-- The word below a block is not in it. -/
theorem not_inBlock_below {b : Addr} {n : ℕ} (hb : InBlock a n b) (hn : n + 4 ≤ 2 ^ 32) :
    ¬ InBlock (a - 4) 4 b := by
  unfold InBlock at hb ⊢
  bv_omega

theorem WordsAt.congr (h : WordsAt mem a l)
    (heq : ∀ b, InBlock a (4 * l.length) b → mem' b = mem b) (hlen : 4 * l.length ≤ 2 ^ 32) :
    WordsAt mem' a l := by
  induction l generalizing a with
  | nil => trivial
  | cons w l ih =>
    rw [List.length_cons] at heq hlen
    refine ⟨?_, ih h.2 (fun b hb => heq b ?_) (by omega)⟩
    · rw [← h.1]
      apply readWord_congr
      intro i hi
      exact heq _ (inBlock_add (by omega) hlen)
    · unfold InBlock at hb ⊢
      bv_omega

/-- The word with the number `i`. -/
theorem WordsAt.word (h : WordsAt mem a l) {i : ℕ} {w : BitVec 32} (hi : l[i]? = some w) :
    readWord mem (a + BitVec.ofNat 32 (4 * i)) = w := by
  induction l generalizing a i with
  | nil => cases hi
  | cons v l ih =>
    cases i with
    | zero =>
      rw [show a + BitVec.ofNat 32 (4 * 0) = a by simp]
      exact h.1.trans (Option.some.inj hi)
    | succ i =>
      rw [show a + BitVec.ofNat 32 (4 * (i + 1)) = a + 4 + BitVec.ofNat 32 (4 * i) by bv_omega]
      exact ih h.2 hi

/-- Word by word. -/
theorem WordsAt.of_word
    (h : ∀ i w, l[i]? = some w → readWord mem (a + BitVec.ofNat 32 (4 * i)) = w) :
    WordsAt mem a l := by
  induction l generalizing a with
  | nil => trivial
  | cons v l ih =>
    refine ⟨?_, ih fun i w hi => ?_⟩
    · have h0 := h 0 v rfl
      rwa [show a + BitVec.ofNat 32 (4 * 0) = a by simp] at h0
    · rw [show a + 4 + BitVec.ofNat 32 (4 * i) = a + BitVec.ofNat 32 (4 * (i + 1)) by bv_omega]
      exact h (i + 1) w hi

/-- The list is pushed from its end on. -/
theorem push_words (l : List (BitVec 32)) (mem : Mem) (top : Addr) (hlen : 4 * l.length ≤ 2 ^ 32) :
    (l.foldr push (mem, top)).2 = top - BitVec.ofNat 32 (4 * l.length) ∧
      WordsAt (l.foldr push (mem, top)).1 (top - BitVec.ofNat 32 (4 * l.length)) l ∧
      ∀ b, ¬ InBlock (top - BitVec.ofNat 32 (4 * l.length)) (4 * l.length) b →
        (l.foldr push (mem, top)).1 b = mem b := by
  induction l with
  | nil => exact ⟨by simp, trivial, fun b _ => rfl⟩
  | cons w l ih =>
    rw [List.length_cons] at hlen ⊢
    obtain ⟨htop, hwords, hout⟩ := ih (by omega)
    rw [List.foldr_cons]
    generalize l.foldr push (mem, top) = p at htop hwords hout ⊢
    have hnext : p.2 - 4 = top - BitVec.ofNat 32 (4 * (l.length + 1)) := by
      rw [htop]
      bv_omega
    have hbase : top - BitVec.ofNat 32 (4 * (l.length + 1)) + 4 =
        top - BitVec.ofNat 32 (4 * l.length) := by
      bv_omega
    refine ⟨hnext, ⟨?_, ?_⟩, fun b hb => ?_⟩
    · rw [← hnext]
      exact readWord_writeWord _ _ _
    · rw [hbase]
      refine hwords.congr (fun b hb => ?_) (by omega)
      apply writeWord_out
      rw [hnext]
      unfold InBlock at hb ⊢
      bv_omega
    · have hword : ¬ InBlock (p.2 - 4) 4 b := by
        rw [hnext]
        unfold InBlock at hb ⊢
        omega
      have hrest : ¬ InBlock (top - BitVec.ofNat 32 (4 * l.length)) (4 * l.length) b := by
        unfold InBlock at hb ⊢
        bv_omega
      exact (writeWord_out hword).trans (hout b hrest)

end WordStack
