import SimpleOs.Io.Itoa

/-!
# Signed numbers as text

In `s32_itoa_s` and in the `itoa` of the kernel loader the minus sign is part of what is turned
around at the end. The test of the character before the second keeps it in its place only when
one digit follows; with more digits it goes to the end. Only the radix 10 makes a negative
number positive before its digits are taken, so with another radix, and for the smallest
number, whose negation is itself, `digit` is indexed with negative remainders.

* `itoa_signed_iff`: which numbers are written correctly, and for which the indices are digits.
* `sign_behind_digits`: -12.
-/

namespace SimpleOs

open ByteMem Logged Numeral Overlay

/-- The canonical signed numeral. -/
def signedText (n : ℤ) : List Byte := (if n < 0 then [0x2d] else []) ++ numeralText 10 n.natAbs

section Texts

variable (f : BitVec 32 → Text → BitVec 32 → Logged ItoaAccess TextFault Text) (n : BitVec 32)
  (str : Text)

/-- The signed numeral of `n` in the radix 10 is written, and a NUL. -/
def WritesSigned : Prop := (f n str 10).result = .ok (put str 0 (signedText n.toInt ++ [0]))

/-- The indices into `digit` are digits of the radix. -/
def IndexesDigits (radix : BitVec 32) : Prop :=
  ∀ i : ℤ, .digit i ∈ (f n str radix).log → 0 ≤ i ∧ i < radix.toNat

end Texts

section Signed

variable {n radix : BitVec 32} {str : Text}

/-! ## Positive numbers, and negative ones in the radix 10 -/

theorem toNat_of_nonneg (hn : 0 ≤ n.toInt) : n.toNat < 2 ^ 31 ∧ n.toInt = n.toNat := by
  have hlt := n.isLt
  have hint := BitVec.toInt_eq_toNat_cond n
  split_ifs at hint
  · omega
  · omega

theorem msb_iff : n.msb = true ↔ n.toInt < 0 := by
  rw [BitVec.msb_eq_toInt]
  exact decide_eq_true_iff

theorem toNat_neg_of_neg (hn : n.toInt < 0) (hmin : n.toInt ≠ -2 ^ 31) :
    (-n).toNat = n.toInt.natAbs ∧ (-n).toNat < 2 ^ 31 := by
  have hlt := n.isLt
  have hint := BitVec.toInt_eq_toNat_cond n
  have hneg := BitVec.toNat_neg (x := n)
  split_ifs at hint
  · omega
  · omega

/-- The last loop, behind a sign and `D`. -/
theorem reverseText_sign (str : Text) {D : List Byte} {len : ℕ} (hD : ∀ c ∈ D, c ≠ 0x2d)
    (hne : D ≠ []) (hlen : D.length ≤ len) :
    Does (ItoaAccess.Within 10 len) (reverseText 0 D.length (put str 0 (0x2d :: D ++ [0])))
      (put str 0 ((if D.length = 1 then 0x2d :: D else (0x2d :: D).reverse) ++ [0])) := by
  have hpos := List.length_pos_iff.mpr hne
  by_cases hone : D.length = 1
  · -- the sign stands before the only digit
    rw [if_pos hone, hone]
    unfold reverseText
    rw [if_pos Nat.one_pos, if_neg (by simp [put_cons, put_of_lt])]
    exact Does.pure
  · have hmirror := mirror_put (f := str) (p := 0) (t := [0]) (List.cons_ne_nil 0x2d D)
    have hend : 0 + (0x2d :: D).length - 1 = D.length := by
      rw [List.length_cons]
      omega
    rw [hend] at hmirror
    rw [if_neg hone, ← hmirror]
    refine reverseText_does (fun j hj hj' => ?_) (fun hpair => absurd hpair hone) fun q hq => ?_
    · obtain ⟨k, rfl⟩ := Nat.exists_eq_add_of_le hj
      have hmem : put (Function.update str 0 0x2d) 1 (D ++ [0]) (1 + k) ∈ D :=
        put_add_mem (by omega)
      rw [List.cons_append, put_cons]
      exact hD _ hmem
    · show q ≤ len
      omega

/-- The sign and the digits of a negative number. With more than one digit the sign is
    turned around with them. -/
theorem itoaBody_negative (hn : n.toInt < 0) (hmin : n.toInt ≠ -2 ^ 31) :
    Does (ItoaAccess.Within 10 (1 + (Nat.digits 10 n.toInt.natAbs).length))
      (itoaBody .int n str 10)
      (put str 0 ((if n.toInt.natAbs < 10 then 0x2d :: (Nat.digits 10 n.toInt.natAbs).map digitChar
        else (0x2d :: (Nat.digits 10 n.toInt.natAbs).map digitChar).reverse) ++ [0])) := by
  obtain ⟨hneg, hlt⟩ := toNat_neg_of_neg hn hmin
  have hzero : n ≠ 0 := by
    rintro rfl
    exact absurd hn (by decide)
  have hpos : 0 < n.toInt.natAbs := by omega
  have hten : (10 : BitVec 32).toNat = 10 := rfl
  have hnil : (Nat.digits 10 n.toInt.natAbs).map digitChar ≠ [] := by
    rw [Ne, List.map_eq_nil_iff]
    exact Nat.digits_ne_nil_iff_ne_zero.mpr (by omega)
  have hone : n.toInt.natAbs < 10 ↔ ((Nat.digits 10 n.toInt.natAbs).map digitChar).length = 1 := by
    have hlen := List.length_pos_iff.mpr hnil
    have hmore := Nat.lt_digits_length_iff (k := 1) (show 1 < 10 by omega) n.toInt.natAbs
    rw [List.length_map] at hlen ⊢
    omega
  have hdash : ∀ c ∈ (Nat.digits 10 n.toInt.natAbs).map digitChar, c ≠ 0x2d := fun c hc =>
    digitChar_ne_dash (by omega) (by omega) hc
  have hreverse : Does
      (ItoaAccess.Within 10 ([(0x2d : Byte)].length + (Nat.digits 10 n.toInt.natAbs).length))
      (reverseText 0 ([(0x2d : Byte)].length + (Nat.digits 10 n.toInt.natAbs).length - 1)
        (put str 0 ([0x2d] ++ (Nat.digits 10 n.toInt.natAbs).map digitChar ++ [0])))
      (put str 0 ((if n.toInt.natAbs < 10 then 0x2d :: (Nat.digits 10 n.toInt.natAbs).map digitChar
        else (0x2d :: (Nat.digits 10 n.toInt.natAbs).map digitChar).reverse) ++ [0])) := by
    have hsign := reverseText_sign str hdash hnil
      (show _ ≤ 1 + (Nat.digits 10 n.toInt.natAbs).length by rw [List.length_map]; omega)
    simp only [← hone] at hsign
    rw [List.length_map] at hsign
    rw [List.length_singleton, Nat.add_sub_cancel_left]
    exact hsign
  have hthen := digits_then_does (int_naturalBelow (by decide)) hten hneg (by omega) (by omega)
    (hneg ▸ hlt) hreverse
  rw [put_singleton] at hthen
  unfold itoaBody
  rw [if_neg hzero, if_pos ⟨rfl, msb_iff.mpr hn⟩]
  exact Does.bind (storeByte_does (Nat.zero_le _)) hthen

/-! ## Negative remainders -/

/-- The computation comes to a negative index into `digit`, and goes no further. -/
def NegativeIndex {α : Type} (t : Logged ItoaAccess TextFault α) : Prop :=
  ∃ i < 0, .digit i ∈ t.log ∧ t.result = .error (.digit i)

theorem loadDigit_negative {i : ℤ} (hi : i < 0) : NegativeIndex (loadDigit i) := by
  have hzero : i.toNat = 0 := Int.toNat_of_nonpos (by omega)
  refine ⟨i, hi, ?_⟩
  unfold loadDigit
  rw [emit_bind, hzero, digitTable_get 0 (by omega)]
  dsimp only
  rw [if_neg (by omega)]
  exact ⟨List.mem_cons_self, rfl⟩

theorem NegativeIndex.bind {α β : Type} {t : Logged ItoaAccess TextFault α}
    (h : NegativeIndex t) (f : α → Logged ItoaAccess TextFault β) : NegativeIndex (t >>= f) := by
  obtain ⟨i, hi, hlog, hresult⟩ := h
  refine ⟨i, hi, ?_⟩
  rw [bind_error hresult]
  exact ⟨hlog, rfl⟩

theorem NegativeIndex.of_bind {α β : Type} {P : ItoaAccess → Prop} {a : α}
    {t : Logged ItoaAccess TextFault α} {f : α → Logged ItoaAccess TextFault β} (ht : Does P t a)
    (h : NegativeIndex (f a)) : NegativeIndex (t >>= f) := by
  obtain ⟨i, hi, hlog, hresult⟩ := h
  refine ⟨i, hi, ?_⟩
  rw [bind_ok ht.result]
  exact ⟨List.mem_append_right _ hlog, hresult⟩

/-- The digits of a negative number are taken from before the table. -/
theorem writeDigits_negative (hradix : 2 ≤ radix.toNat) (hradix' : radix.toNat ≤ 36) {fuel p : ℕ}
    (hn : n.toInt < 0) (hfuel : n.toInt.natAbs < 2 ^ fuel) :
    NegativeIndex (writeDigits .int radix fuel n p str) := by
  induction fuel generalizing n p str with
  | zero => omega
  | succ fuel ih =>
    have hzero : n ≠ 0 := by
      rintro rfl
      exact absurd hn (by decide)
    have hpos : radix.toInt = radix.toNat := BitVec.toInt_eq_toNat_of_lt (by omega)
    obtain ⟨a, ha⟩ := Int.exists_eq_neg_ofNat (Int.le_of_lt hn)
    have hrem : NumberType.int.rem n radix = -((a % radix.toNat : ℕ) : ℤ) := by
      show (n.srem radix).toInt = _
      rw [BitVec.toInt_srem, hpos, ha, Int.neg_tmod]
      rfl
    unfold writeDigits
    rw [if_pos hzero, hrem]
    by_cases hdivides : a % radix.toNat = 0
    · -- the digit is 0, and the quotient negative again
      have hone : radix ≠ -1#32 := by
        rintro rfl
        exact absurd hradix' (by decide)
      have hquot : (NumberType.int.quot n radix).toInt = -((a / radix.toNat : ℕ) : ℤ) := by
        show (n.sdiv radix).toInt = _
        rw [BitVec.toInt_sdiv_of_ne_or_ne _ _ (.inr hone), hpos, ha, Int.neg_tdiv]
        rfl
      have hle : radix.toNat ≤ a := Nat.le_of_dvd (by omega) (Nat.dvd_of_mod_eq_zero hdivides)
      have hquotpos : 0 < a / radix.toNat := Nat.div_pos hle (by omega)
      have hhalf : a / radix.toNat < 2 ^ fuel := by
        have hdiv := Nat.div_le_div_left (a := a) hradix (by omega)
        omega
      rw [hdivides]
      apply NegativeIndex.of_bind (loadDigit_does (P := fun _ => True) (d := 0) (by omega) trivial)
      apply NegativeIndex.of_bind (storeByte_does (P := fun _ => True) trivial)
      apply ih
      · omega
      · omega
    · exact (loadDigit_negative (by omega)).bind _

theorem itoaBody_negativeIndex (hradix : 2 ≤ radix.toNat) (hradix' : radix.toNat ≤ 36)
    (hn : n.toInt < 0) (hbad : radix ≠ 10 ∨ n.toInt = -2 ^ 31) :
    NegativeIndex (itoaBody .int n str radix) := by
  have hzero : n ≠ 0 := by
    rintro rfl
    exact absurd hn (by decide)
  have hfuel : n.toInt.natAbs < 2 ^ 33 := by
    have hlt := n.isLt
    have hint := BitVec.toInt_eq_toNat_cond n
    split_ifs at hint
    · omega
    · omega
  unfold itoaBody
  rw [if_neg hzero]
  by_cases hten : radix = 10
  · -- the smallest number is its own negation
    have hmin : n = 0x80000000 := BitVec.eq_of_toInt_eq (hbad.resolve_left (not_not.mpr hten))
    have hself : -n = n := by
      rw [hmin]
      rfl
    rw [if_pos ⟨hten, msb_iff.mpr hn⟩, hself]
    apply NegativeIndex.of_bind (storeByte_does (P := fun _ => True) trivial)
    exact (writeDigits_negative hradix hradix' hn hfuel).bind _
  · rw [if_neg (fun h => hten h.1)]
    apply NegativeIndex.of_bind (Does.pure (P := fun _ => True))
    exact (writeDigits_negative hradix hradix' hn hfuel).bind _

/-! ## Both functions -/

theorem writesSigned_nonneg (hn : 0 ≤ n.toInt) :
    (itoaBody .int n str 10).result = .ok (put str 0 (signedText n.toInt ++ [0])) := by
  obtain ⟨hlt, hint⟩ := toNat_of_nonneg hn
  have hsign : NumberType.int.neg n = false := by
    rw [← Bool.not_eq_true]
    exact fun hneg => absurd (msb_iff.mp hneg) (by omega)
  have hdoes : Does _ (itoaBody .int n str 10) _ :=
    itoaBody_does (int_naturalBelow (by decide)) (by decide) (by decide) hlt hsign
  rw [hdoes.result]
  unfold signedText
  rw [if_neg (by omega), hint]
  rfl

/-- A sign and one digit stay as they are, and a sign and more digits do not. -/
theorem writesSigned_negative_iff (hn : n.toInt < 0) (hmin : n.toInt ≠ -2 ^ 31) :
    (itoaBody .int n str 10).result = .ok (put str 0 (signedText n.toInt ++ [0])) ↔
      n.toInt.natAbs < 10 := by
  have hsigned : signedText n.toInt = 0x2d :: numeralText 10 n.toInt.natAbs := by
    unfold signedText
    rw [if_pos hn]
    rfl
  have hdoes : Does _ (itoaBody .int n str 10) _ := itoaBody_negative hn hmin
  rw [hdoes.result, hsigned]
  by_cases hone : n.toInt.natAbs < 10
  · have hdigits : Nat.digits 10 n.toInt.natAbs = [n.toInt.natAbs] :=
      Nat.digits_of_lt 10 _ (by omega) hone
    refine iff_of_true ?_ hone
    unfold numeralText numeral
    rw [if_pos hone, if_neg (by omega), hdigits]
    rfl
  · refine iff_of_false (fun heq => ?_) hone
    rw [if_neg hone] at heq
    have htext := congrFun (Except.ok.inj heq) (0 + 0)
    have hsign : put str 0 (0x2d :: numeralText 10 n.toInt.natAbs ++ [0]) (0 + 0) = 0x2d :=
      put_head
    have hlast : put str 0 ((0x2d :: (Nat.digits 10 n.toInt.natAbs).map digitChar).reverse ++ [0])
        (0 + 0) ∈ ((Nat.digits 10 n.toInt.natAbs).map digitChar).reverse := by
      rw [List.reverse_cons, List.append_assoc]
      refine put_add_mem ?_
      rw [List.length_reverse, List.length_map]
      exact List.length_pos_iff.mpr (Nat.digits_ne_nil_iff_ne_zero.mpr (by omega))
    rw [htext, hsign] at hlast
    exact digitChar_ne_dash (by omega) (by omega) (List.mem_reverse.mp hlast) rfl

theorem writesSigned_iff (n : BitVec 32) (str : Text) :
    (itoaBody .int n str 10).result = .ok (put str 0 (signedText n.toInt ++ [0])) ↔
      -9 ≤ n.toInt := by
  rcases Int.lt_or_le n.toInt 0 with hn | hn
  · by_cases hmin : n.toInt = -2 ^ 31
    · have hindex : NegativeIndex (itoaBody .int n str 10) :=
        itoaBody_negativeIndex (by decide) (by decide) hn (.inr hmin)
      obtain ⟨i, _, _, herror⟩ := hindex
      refine iff_of_false (fun hok => ?_) (by omega)
      rw [herror] at hok
      cases hok
    · rw [writesSigned_negative_iff hn hmin]
      omega
  · exact iff_of_true (writesSigned_nonneg hn) (by omega)

theorem indexesDigits_iff (n : BitVec 32) (str : Text) (hradix : 2 ≤ radix.toNat)
    (hradix' : radix.toNat ≤ 36) :
    (∀ i : ℤ, .digit i ∈ (itoaBody .int n str radix).log → 0 ≤ i ∧ i < radix.toNat) ↔
      0 ≤ n.toInt ∨ (radix = 10 ∧ n.toInt ≠ -2 ^ 31) := by
  rcases Int.lt_or_le n.toInt 0 with hn | hn
  · by_cases hgood : radix = 10 ∧ n.toInt ≠ -2 ^ 31
    · refine iff_of_true (fun i hi => ?_) (.inr hgood)
      rw [hgood.1] at hi ⊢
      exact (itoaBody_negative hn hgood.2).log _ hi
    · have hindex : NegativeIndex (itoaBody .int n str radix) :=
        itoaBody_negativeIndex hradix hradix' hn (by rwa [not_and_or, not_not] at hgood)
      obtain ⟨i, hi, hlog, _⟩ := hindex
      refine iff_of_false (fun hall => ?_) ?_
      · have hge := (hall i hlog).1
        omega
      · rintro (hge | h)
        · omega
        · exact hgood h
  · have hsign : NumberType.int.neg n = false := by
      rw [← Bool.not_eq_true]
      exact fun hneg => absurd (msb_iff.mp hneg) (by omega)
    refine iff_of_true (fun i hi => ?_) (.inl hn)
    exact (itoaBody_does (int_naturalBelow (by omega)) hradix hradix' (toNat_of_nonneg hn).1
      hsign).log _ hi

end Signed

/-- For every number: `s32_itoa_s` and `itoa` write its decimal numeral if and only if it is not
    below -9; and for every radix they index `digit` with digits of the radix if and only if
    it is not negative, or the radix is 10 and it is not the smallest number. -/
theorem itoa_signed_iff (n : BitVec 32) (str : Text) :
    (WritesSigned s32ItoaS n str ↔ -9 ≤ n.toInt) ∧ (WritesSigned itoa n str ↔ -9 ≤ n.toInt) ∧
    ∀ radix : BitVec 32, 2 ≤ radix.toNat → radix.toNat ≤ 36 →
      (IndexesDigits s32ItoaS n str radix ↔ 0 ≤ n.toInt ∨ (radix = 10 ∧ n.toInt ≠ -2 ^ 31)) ∧
      (IndexesDigits itoa n str radix ↔ 0 ≤ n.toInt ∨ (radix = 10 ∧ n.toInt ≠ -2 ^ 31)) :=
  ⟨writesSigned_iff n str, writesSigned_iff n str, fun _ hradix hradix' =>
    ⟨indexesDigits_iff n str hradix hradix', indexesDigits_iff n str hradix hradix'⟩⟩

/-- -7 in the radices 10 and 16. -/
theorem itoa_signed_iff_seven : WritesSigned s32ItoaS (-7) (fun _ => 0) ∧
    IndexesDigits itoa (-7) (fun _ => 0) 10 ∧ ¬ IndexesDigits itoa (-7) (fun _ => 0) 16 := by
  obtain ⟨hwrites, _, hindex⟩ := itoa_signed_iff (-7) (fun _ => 0)
  refine ⟨hwrites.mpr (by decide), (hindex 10 (by decide) (by decide)).2.mpr (by decide), ?_⟩
  rw [(hindex 16 (by decide) (by decide)).2]
  decide

/-- -12 is written as `12-`. -/
theorem sign_behind_digits :
    (s32ItoaS (-12) (fun _ => 0) 10).result = .ok (put (fun _ => 0) 0 (strBytes "12-" ++ [0])) ∧
      signedText (-12) = strBytes "-12" ∧ ¬ WritesSigned s32ItoaS (-12) (fun _ => 0) ∧
      ¬ WritesSigned itoa (-12) (fun _ => 0) := by
  have hint : (-12 : BitVec 32).toInt = -12 := by decide
  have hnot : ¬ -9 ≤ (-12 : BitVec 32).toInt := by decide
  have hdoes : Does _ (itoaBody .int (-12) (fun _ => 0) 10) _ :=
    itoaBody_negative (by decide) (by decide)
  have hresult := hdoes.result
  have hdigits : Nat.digits 10 12 = [2, 1] := by simp
  refine ⟨?_, ?_, fun h => hnot ((writesSigned_iff _ _).mp h),
    fun h => hnot ((writesSigned_iff _ _).mp h)⟩
  · rw [hint, show (-12 : ℤ).natAbs = 12 from rfl, hdigits] at hresult
    exact hresult
  · unfold signedText numeralText numeral
    rw [show (-12 : ℤ).natAbs = 12 from rfl, hdigits]
    decide

end SimpleOs
