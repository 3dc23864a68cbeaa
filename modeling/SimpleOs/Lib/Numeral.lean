import Mathlib.Data.Nat.Digits.Lemmas

/-!
# Positional numerals

The numeral of a number in a radix, the most significant digit first and without leading
zeros; 0 has the numeral `[0]`.

* `isNumeral_numeral`, `IsNumeral.eq_numeral`: the numeral of a number, and that it is the only
  one.
* `numeral_length_le`: how long it is.
-/

namespace Numeral

/-- The value of a list of digits, the most significant first. -/
def value (radix : ℕ) (ds : List ℕ) : ℕ := ds.foldl (fun v d => v * radix + d) 0

/-- The canonical numeral of `n`. -/
structure IsNumeral (radix n : ℕ) (ds : List ℕ) : Prop where
  digits : ∀ d ∈ ds, d < radix
  value : value radix ds = n
  ne_nil : ds ≠ []
  leading : ds.head? = some 0 → ds = [0]

def numeral (radix n : ℕ) : List ℕ := if n = 0 then [0] else (Nat.digits radix n).reverse

variable {radix n k : ℕ} {ds ds' : List ℕ}

theorem foldl_eq_ofDigits (radix v : ℕ) (ds : List ℕ) :
    ds.foldl (fun v d => v * radix + d) v = Nat.ofDigits radix (ds.reverse ++ [v]) := by
  induction ds generalizing v with
  | nil => simp
  | cons d ds ih =>
    rw [List.foldl_cons, ih, List.reverse_cons]
    simp only [Nat.ofDigits_append, Nat.ofDigits_singleton, List.length_append, List.length_reverse,
      List.length_singleton, Nat.pow_succ]
    rw [Nat.mul_add, Nat.mul_comm v radix, ← Nat.mul_assoc]
    omega

theorem value_eq_ofDigits (radix : ℕ) (ds : List ℕ) :
    value radix ds = Nat.ofDigits radix ds.reverse := by
  unfold value
  rw [foldl_eq_ofDigits, Nat.ofDigits_append_zero]

theorem isNumeral_numeral (hradix : 1 < radix) (n : ℕ) : IsNumeral radix n (numeral radix n) := by
  unfold numeral
  by_cases hn : n = 0
  · rw [if_pos hn, hn]
    refine ⟨?_, ?_, List.cons_ne_nil _ _, fun _ => rfl⟩
    · intro d hd
      rw [List.mem_singleton.mp hd]
      omega
    · unfold value
      simp
  · rw [if_neg hn]
    have hnil : Nat.digits radix n ≠ [] := Nat.digits_ne_nil_iff_ne_zero.mpr hn
    refine ⟨?_, ?_, ?_, ?_⟩
    · intro d hd
      exact Nat.digits_lt_base hradix (List.mem_reverse.mp hd)
    · rw [value_eq_ofDigits, List.reverse_reverse, Nat.ofDigits_digits]
    · rwa [Ne, List.reverse_eq_nil_iff]
    · intro hhead
      rw [List.head?_reverse, List.getLast?_eq_some_getLast hnil, Option.some.injEq] at hhead
      exact absurd hhead (Nat.getLast_digit_ne_zero radix hn)

/-- A number has one numeral. -/
theorem IsNumeral.eq_numeral (hradix : 1 < radix) (h : IsNumeral radix n ds) :
    ds = numeral radix n := by
  have hvalue : Nat.ofDigits radix ds.reverse = n := by
    rw [← value_eq_ofDigits]
    exact h.value
  unfold numeral
  by_cases hhead : ds.head? = some 0
  · have hzero := h.leading hhead
    rw [hzero] at hvalue ⊢
    rw [if_pos]
    rw [← hvalue]
    rfl
  · have hdigits : Nat.digits radix n = ds.reverse := by
      rw [← hvalue]
      refine Nat.digits_ofDigits radix hradix _ (fun d hd => ?_) fun hne hlast => hhead ?_
      · exact h.digits d (List.mem_reverse.mp hd)
      · rw [← List.getLast?_reverse, List.getLast?_eq_some_getLast hne, hlast]
    have hn : n ≠ 0 := by
      rw [← Nat.digits_ne_nil_iff_ne_zero (b := radix), hdigits]
      exact fun hnil => h.ne_nil (List.reverse_eq_nil_iff.mp hnil)
    rw [if_neg hn, hdigits, List.reverse_reverse]

theorem numeral_length_le (hradix : 1 < radix) (hk : 0 < k) (hn : n < radix ^ k) :
    (numeral radix n).length ≤ k := by
  unfold numeral
  split_ifs
  · exact hk
  · rw [List.length_reverse]
    exact (Nat.digits_length_le_iff hradix n).mpr hn

end Numeral
