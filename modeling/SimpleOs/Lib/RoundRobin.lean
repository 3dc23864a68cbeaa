import Mathlib.Algebra.Group.Fin.Basic
import Mathlib.Data.Finset.Card
import Mathlib.Data.Fintype.Basic
import Mathlib.Data.Nat.Count
import Mathlib.Data.Nat.ModEq
import Mathlib.Tactic.Common

/-!
# Taking turns on a ring

`n` places in a ring, some of which have a property `P`. `IsNext` steps from a
place to the next one with the property. As many steps in a row as there are
places with the property come to each of them exactly once (`visits_once`),
wherever they begin, and from such a place back to it (`visits_again`).
-/

namespace RoundRobin

variable {n : ℕ} [NeZero n]

/-- The place `i` places behind the one after `a`. -/
def place (a : Fin n) (i : ℕ) : Fin n := a + 1 + Fin.ofNat n i

/-- `b` is the first place with `P` strictly after `a`, `a` itself being the last
    that is tried. -/
def IsNext (P : Fin n → Prop) (a b : Fin n) : Prop :=
  ∃ i < n, b = place a i ∧ P b ∧ ∀ j < i, ¬ P (place a j)

theorem place_zero (a : Fin n) : place a 0 = a + 1 := by
  have hzero : Fin.ofNat n 0 = 0 := rfl
  rw [place, hzero]
  exact add_zero _

theorem place_place (a : Fin n) (i j : ℕ) : place (place a i) j = place a (i + 1 + j) := by
  apply Fin.ext
  simp only [place, Fin.val_add, Fin.val_ofNat]
  have hone : ((1 : Fin n) : ℕ) ≡ 1 [MOD n] := by
    rw [Nat.ModEq, Fin.val_one']
    exact Nat.mod_mod 1 n
  have hleft : (((a.val + (1 : Fin n).val) % n + i % n) % n + (1 : Fin n).val) % n + j % n ≡
      a.val + (1 : Fin n).val + i + (1 : Fin n).val + j [MOD n] := by
    simp [Nat.ModEq, Nat.add_mod]
  have hright : (a.val + (1 : Fin n).val) % n + (i + 1 + j) % n ≡
      a.val + (1 : Fin n).val + (i + 1 + j) [MOD n] := by
    simp [Nat.ModEq, Nat.add_mod]
  refine (hleft.trans ?_).trans hright.symm
  have hsum := ((hone.add_left (a.val + (1 : Fin n).val + i)).add_right j)
  rw [show a.val + (1 : Fin n).val + (i + 1 + j) = a.val + (1 : Fin n).val + i + 1 + j by omega]
  exact hsum

theorem place_succ (a : Fin n) (i : ℕ) : place a (i + 1) = place (a + 1) i := by
  rw [← place_zero, place_place]
  congr 1
  omega

theorem place_injOn (a : Fin n) {i j : ℕ} (hi : i < n) (hj : j < n) (h : place a i = place a j) :
    i = j := by
  have h' : Fin.ofNat n i = Fin.ofNat n j := add_left_cancel h
  have hval := congrArg Fin.val h'
  rwa [Fin.val_ofNat, Fin.val_ofNat, Nat.mod_eq_of_lt hi, Nat.mod_eq_of_lt hj] at hval

theorem exists_place (a b : Fin n) : ∃ i < n, b = place a i := by
  refine ⟨(b - (a + 1)).val, (b - (a + 1)).isLt, ?_⟩
  rw [place, Fin.ofNat_val_eq_self]
  exact (add_sub_cancel (a + 1) b).symm

section Turns

variable {P : Fin n → Prop} [DecidablePred P]

/-- The places with the property are as many as the offsets that lead to one. -/
theorem count_place (a : Fin n) :
    Nat.count (fun i => P (place a i)) n = (Finset.univ.filter P).card := by
  rw [Nat.count_eq_card_filter_range]
  refine Finset.card_bij (fun i _ => place a i) ?_ ?_ ?_
  · intro i hi
    rw [Finset.mem_filter] at hi ⊢
    exact ⟨Finset.mem_univ _, hi.2⟩
  · intro i hi j hj h
    rw [Finset.mem_filter, Finset.mem_range] at hi hj
    exact place_injOn a hi.1 hj.1 h
  · intro b hb
    rw [Finset.mem_filter] at hb
    obtain ⟨i, hi, rfl⟩ := exists_place a b
    exact ⟨i, by rw [Finset.mem_filter, Finset.mem_range]; exact ⟨hi, hb.2⟩, rfl⟩

/-- Behind the `m`-th step lies the place with the property that has `m - 1`
    others before it. -/
theorem step_offset {s : ℕ → Fin n} {k : ℕ} (h : ∀ i < k, IsNext P (s i) (s (i + 1))) :
    ∀ m < k, ∃ b, s (m + 1) = place (s 0) b ∧ P (place (s 0) b) ∧
      Nat.count (fun i => P (place (s 0) i)) b = m := by
  intro m
  induction m with
  | zero =>
    intro hm
    obtain ⟨i, -, heq, hP, hbefore⟩ := h 0 hm
    refine ⟨i, heq, heq ▸ hP, ?_⟩
    rw [Nat.count_iff_forall_not]
    exact fun j hj => hbefore j hj
  | succ m ih =>
    intro hm
    obtain ⟨b, hb, hPb, hcount⟩ := ih (by omega)
    obtain ⟨i, -, heq, hP, hbefore⟩ := h (m + 1) hm
    rw [hb, place_place] at heq
    refine ⟨b + 1 + i, heq, heq ▸ hP, ?_⟩
    have hnone : Nat.count (fun j => P (place (s 0) (b + 1 + j))) i = 0 := by
      rw [Nat.count_iff_forall_not]
      intro j hj
      rw [← place_place, ← hb]
      exact hbefore j hj
    rw [Nat.count_add, Nat.count_succ, if_pos hPb, hcount, hnone]

/-- As many steps in a row as there are places with the property come to each of
    them exactly once. -/
theorem visits_once {s : ℕ → Fin n}
    (h : ∀ i < (Finset.univ.filter P).card, IsNext P (s i) (s (i + 1))) {b : Fin n} (hb : P b) :
    ∃! i, i < (Finset.univ.filter P).card ∧ s (i + 1) = b := by
  set p : ℕ → Prop := fun i => P (place (s 0) i) with hp
  have hcard : Nat.count p n = (Finset.univ.filter P).card := count_place (s 0)
  have hstep := step_offset h
  -- the offset behind each step is one of the ring
  have hlt : ∀ c, Nat.count p c < (Finset.univ.filter P).card → c < n := by
    intro c hc
    by_contra hge
    have hmono : Nat.count p n ≤ Nat.count p c := Nat.count_monotone p (Nat.le_of_not_lt hge)
    omega
  obtain ⟨c, hc, rfl⟩ := exists_place (s 0) b
  have hbefore : Nat.count p c < (Finset.univ.filter P).card := by
    have hsucc : Nat.count p (c + 1) ≤ Nat.count p n := Nat.count_monotone p hc
    rw [Nat.count_succ, if_pos hb] at hsucc
    omega
  refine ⟨Nat.count p c, ⟨hbefore, ?_⟩, ?_⟩
  · obtain ⟨d, hd, hPd, hcount⟩ := hstep _ hbefore
    rw [hd, Nat.count_injective hPd hb hcount]
  · intro i hi
    obtain ⟨hi, hvisit⟩ := hi
    obtain ⟨d, hd, -, hcount⟩ := hstep i hi
    have hdc : d = c :=
      place_injOn (s 0) (hlt d (by rw [hcount]; exact hi)) hc (hd.symm.trans hvisit)
    rw [← hcount, hdc]

omit [DecidablePred P] in
theorem IsNext.unique {a b c : Fin n} (hb : IsNext P a b) (hc : IsNext P a c) : b = c := by
  obtain ⟨i, -, rfl, hPi, hi⟩ := hb
  obtain ⟨j, -, rfl, hPj, hj⟩ := hc
  rcases Nat.lt_trichotomy i j with hlt | heq | hlt
  · exact absurd hPi (hj i hlt)
  · rw [heq]
  · exact absurd hPj (hi j hlt)

/-- From a place with the property, as many steps as there are such places lead back to it for
    the first time. -/
theorem visits_again {s : ℕ → Fin n}
    (h : ∀ i < (Finset.univ.filter P).card, IsNext P (s i) (s (i + 1))) (h0 : P (s 0)) :
    s (Finset.univ.filter P).card = s 0 ∧
      ∀ i, 0 < i → i < (Finset.univ.filter P).card → s i ≠ s 0 := by
  obtain ⟨i, ⟨hi, hback⟩, honly⟩ := visits_once h h0
  have hlast : i + 1 = (Finset.univ.filter P).card := by
    by_contra hne
    -- otherwise the place behind `s 0` is visited twice
    have hnext := h (i + 1) (by omega)
    rw [hback] at hnext
    have hagain : s (i + 1 + 1) = s (0 + 1) := hnext.unique (h 0 (by omega))
    obtain ⟨-, -, -, hP, -⟩ := h 0 (by omega)
    obtain ⟨j, -, hj⟩ := visits_once h hP
    have h1 := hj (i + 1) ⟨by omega, hagain⟩
    have h2 := hj 0 ⟨by omega, rfl⟩
    omega
  refine ⟨hlast ▸ hback, fun j hpos hj heq => ?_⟩
  have hsame := honly (j - 1) ⟨by omega, by rw [Nat.sub_add_cancel hpos]; exact heq⟩
  omega

end Turns

end RoundRobin
