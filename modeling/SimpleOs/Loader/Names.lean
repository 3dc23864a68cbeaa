import SimpleOs.Lib.CString
import SimpleOs.Loader.Search

/-!
# The comparison of names

`s_strncmp` (kernel_loader/kernel_loader.c:411-429) on strings. The pointers stop where one
of the strings ends while the count goes on, so a string that ends before `n` characters
passes for every longer one that begins with it.

* `sStrncmp_strings`: when `s_strncmp` returns 0.
* `sStrncmp_take_iff`: when that means the same first `n` characters.
-/

namespace SimpleOs

open ByteMem

/-- The characters behind a pointer. -/
def charsAt (mem : Mem) (a : Addr) (i : ℕ) : Byte := mem (a + BitVec.ofNat 32 i)

/-- `s` ends before `n` characters, and `t` goes on from there. -/
def EndsWithin (s t : List Byte) (n : ℕ) : Prop := s <+: t ∧ s ≠ t ∧ s.length < n

instance (s t : List Byte) (n : ℕ) : Decidable (EndsWithin s t n) :=
  inferInstanceAs (Decidable (_ ∧ _ ∧ _))

section Strings

variable {mem : Mem} {a b : Addr} {s t : List Byte} {c d : Byte} {n : ℕ}

theorem charsAt_zero : charsAt mem a 0 = mem a := congrArg mem (BitVec.add_zero a)

theorem charsAt_succ : (fun i => charsAt mem a (i + 1)) = charsAt mem (a + 1) := by
  funext i
  exact congrArg mem (add_one_add_ofNat a i).symm

theorem endsWithin_nil (hn : 0 < n) (ht : t ≠ []) : EndsWithin [] t n :=
  ⟨List.nil_prefix, ht.symm, hn⟩

theorem endsWithin_cons : EndsWithin (c :: s) (d :: t) (n + 1) ↔ c = d ∧ EndsWithin s t n := by
  unfold EndsWithin
  rw [List.cons_prefix_cons, List.length_cons, Nat.add_lt_add_iff_right]
  constructor
  · rintro ⟨⟨rfl, hpre⟩, hne, hlt⟩
    exact ⟨rfl, hpre, fun h => hne (congrArg (c :: ·) h), hlt⟩
  · rintro ⟨rfl, hpre, hne, hlt⟩
    exact ⟨⟨rfl, hpre⟩, fun h => hne (List.cons.inj h).2, hlt⟩

/-- A string that ends before `n` characters has other first `n` than a longer one. -/
theorem EndsWithin.take_ne (h : EndsWithin s t n) : s.take n ≠ t.take n := by
  obtain ⟨hpre, hne, hlt⟩ := h
  intro htake
  have hle := hpre.length_le
  have hlen := congrArg List.length htake
  rw [List.length_take, List.length_take] at hlen
  exact hne (hpre.eq_of_length (by omega))

theorem agreesUpToZero_iff (hs : IsStr mem a s) (ht : IsStr mem b t) :
    AgreesUpToZero (charsAt mem a) (charsAt mem b) n ↔
      s.take n = t.take n ∨ EndsWithin s t n ∨ EndsWithin t s n := by
  induction n generalizing a b s t with
  | zero =>
    refine iff_of_true ⟨0, Nat.le_refl 0, fun i hi => absurd hi (Nat.not_lt_zero i), .inl rfl⟩ ?_
    exact .inl rfl
  | succ n ih =>
    cases s with
    | nil =>
      have hnul : mem a = 0 := hs
      refine iff_of_true (agreesUpToZero_of_zero fun h => h.1 (charsAt_zero.trans hnul)) ?_
      by_cases hnil : t = []
      · exact .inl (by rw [hnil])
      · exact .inr (.inl (endsWithin_nil (Nat.succ_pos n) hnil))
    | cons c s =>
      cases t with
      | nil =>
        have hnul : mem b = 0 := ht
        refine iff_of_true (agreesUpToZero_of_zero fun h => h.2 (charsAt_zero.trans hnul)) ?_
        exact .inr (.inr (endsWithin_nil (Nat.succ_pos n) (List.cons_ne_nil c s)))
      | cons d t =>
        obtain ⟨hc, hc0, hs⟩ := hs
        obtain ⟨hd, hd0, ht⟩ := ht
        have hgo : charsAt mem a 0 ≠ 0 ∧ charsAt mem b 0 ≠ 0 := by
          rw [charsAt_zero, charsAt_zero, hc, hd]
          exact ⟨hc0, hd0⟩
        rw [agreesUpToZero_succ hgo, charsAt_succ, charsAt_succ, ih hs ht, charsAt_zero,
          charsAt_zero, hc, hd, List.take_succ_cons, List.take_succ_cons, List.cons.injEq,
          endsWithin_cons, endsWithin_cons]
        constructor
        · rintro ⟨rfl, h | h | h⟩
          · exact .inl ⟨rfl, h⟩
          · exact .inr (.inl ⟨rfl, h⟩)
          · exact .inr (.inr ⟨rfl, h⟩)
        · rintro (⟨rfl, h⟩ | ⟨rfl, h⟩ | ⟨rfl, h⟩)
          · exact ⟨rfl, .inl h⟩
          · exact ⟨rfl, .inr (.inl h)⟩
          · exact ⟨rfl, .inr (.inr h)⟩

/-- `s_strncmp` returns 0 for the same first `n` characters, and where one string ends. -/
theorem sStrncmp_strings (hs : IsStr mem a s) (ht : IsStr mem b t) :
    sStrncmp (charsAt mem a) (charsAt mem b) n 0 0 = 0 ↔
      s.take n = t.take n ∨ EndsWithin s t n ∨ EndsWithin t s n := by
  rw [sStrncmp_eq_zero_iff]
  exact agreesUpToZero_iff hs ht

/-- `s_strncmp` says whether the first `n` characters are the same if and only if neither
    string ends before them where the other goes on. -/
theorem sStrncmp_take_iff (mem : Mem) (a b : Addr) (s t : List Byte) (n : BitVec 8)
    (hs : IsStr mem a s) (ht : IsStr mem b t) :
    (sStrncmp (charsAt mem a) (charsAt mem b) n.toNat 0 0 = 0 ↔
        s.take n.toNat = t.take n.toNat) ↔
      ¬ EndsWithin s t n.toNat ∧ ¬ EndsWithin t s n.toNat := by
  rw [sStrncmp_strings hs ht]
  constructor
  · intro h
    exact ⟨fun hst => hst.take_ne (h.mp (.inr (.inl hst))),
      fun hts => hts.take_ne (h.mp (.inr (.inr hts))).symm⟩
  · rintro ⟨hst, hts⟩
    constructor
    · rintro (h | h | h)
      · exact h
      · exact absurd h hst
      · exact absurd h hts
    · exact .inl

end Strings

/-- `P_K` at 0, and `P_KERNELELF` at 4. -/
def twoNames : Mem :=
  strMem [0x50, 0x5f, 0x4b, 0, 0x50, 0x5f, 0x4b, 0x45, 0x52, 0x4e, 0x45, 0x4c, 0x45, 0x4c, 0x46]

/-- In the first three characters the two names are the same. -/
theorem sStrncmp_take_three :
    sStrncmp (charsAt twoNames 0) (charsAt twoNames 4) 3 0 0 = 0 ↔
      List.take 3 [(0x50 : Byte), 0x5f, 0x4b] =
        List.take 3 [0x50, 0x5f, 0x4b, 0x45, 0x52, 0x4e, 0x45, 0x4c, 0x45, 0x4c, 0x46] :=
  (sStrncmp_take_iff twoNames 0 4 [0x50, 0x5f, 0x4b]
    [0x50, 0x5f, 0x4b, 0x45, 0x52, 0x4e, 0x45, 0x4c, 0x45, 0x4c, 0x46] 3 (by decide)
    (by decide)).mpr ⟨by decide, by decide⟩

/-- `P_K` passes for `P_KERNELELF`. -/
theorem sStrncmp_prefix :
    IsStr twoNames 0 [0x50, 0x5f, 0x4b] ∧
      IsStr twoNames 4 [0x50, 0x5f, 0x4b, 0x45, 0x52, 0x4e, 0x45, 0x4c, 0x45, 0x4c, 0x46] ∧
      sStrncmp (charsAt twoNames 0) (charsAt twoNames 4) 11 0 0 = 0 ∧
      List.take 11 [(0x50 : Byte), 0x5f, 0x4b] ≠
        List.take 11 [0x50, 0x5f, 0x4b, 0x45, 0x52, 0x4e, 0x45, 0x4c, 0x45, 0x4c, 0x46] := by
  decide

end SimpleOs
