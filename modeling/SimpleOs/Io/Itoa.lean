import SimpleOs.Io.Stdio
import SimpleOs.Lib.Logged
import SimpleOs.Lib.Numeral
import SimpleOs.Lib.Overlay

/-!
# Numbers as text

`s32_itoa`, `s32_itoa_s` and the `itoa` of the kernel loader have one body
(io/k_stdio.c:32-114, kernel_loader/kernel_loader.c:145-181); they differ in the type of `n`.
It writes the digits with the last first and turns them around in place; two characters are
exchanged unless the one before the second is a minus sign.

A text is a function of the offset from `str`. The log has the indices into `digit` and the
offsets that are written; an index outside of the table is an error.

* `reverseText_does`: when the loop that turns around does so.
* `writeDigits_does`: what the loop before it leaves.
-/

namespace SimpleOs

open ByteMem Logged Numeral Overlay

/-! ## The body -/

/-- An index into `digit`, or a byte written. -/
inductive ItoaAccess where
  | digit (i : ℤ)
  | store (p : ℕ)

inductive TextFault where
  /-- An index outside of `digit`. -/
  | digit (i : ℤ)
  /-- A loop has not come to its end. -/
  | endless
  /-- A byte behind the end of an array. -/
  | overflow (p : ℕ)

abbrev Text := ℕ → Byte

/-- `char digit[]`, with its NUL. -/
def digitTable : List Byte := strBytes "0123456789ABCDEFGHIJKLMNOPQRSTUVWXYZ" ++ [0]

/-- `digit[i]`. -/
def loadDigit (i : ℤ) : Logged ItoaAccess TextFault Byte := do
  emit (.digit i)
  match digitTable[i.toNat]? with
  | some c => lift (if 0 ≤ i then .ok c else .error (.digit i))
  | none => lift (.error (.digit i))

/-- `str[p] = c`. -/
def storeByte (str : Text) (p : ℕ) (c : Byte) : Logged ItoaAccess TextFault Text := do
  emit (.store p)
  pure (Function.update str p c)

/-- The type of `n`: whether it is negative, `n % radix` and `n / radix`. -/
structure NumberType where
  neg : BitVec 32 → Bool
  rem : BitVec 32 → BitVec 32 → ℤ
  quot : BitVec 32 → BitVec 32 → BitVec 32

/-- `u32`. -/
def NumberType.u32 : NumberType where
  neg _ := false
  rem n radix := (n % radix).toNat
  quot n radix := n / radix

/-- `int`, whose division goes towards 0. -/
def NumberType.int : NumberType where
  neg n := n.msb
  rem n radix := (n.srem radix).toInt
  quot n radix := n.sdiv radix

/-- `while(n)`: the digits from `p` on, and where they end. -/
def writeDigits (t : NumberType) (radix : BitVec 32) :
    ℕ → BitVec 32 → ℕ → Text → Logged ItoaAccess TextFault (ℕ × Text)
  | 0, _, _, _ => lift (.error .endless)
  | fuel + 1, n, p, str =>
    if n ≠ 0 then do
      let c ← loadDigit (t.rem n radix)
      let str ← storeByte str p c
      writeDigits t radix fuel (t.quot n radix) (p + 1) str
    else pure (p, str)

/-- `for (; head < p; ++head, --p)`. -/
def reverseText : ℕ → ℕ → Text → Logged ItoaAccess TextFault Text
  | _, 0, str => pure str
  | head, p + 1, str =>
    if head < p + 1 then do
      let temp := str head
      let str ←
        if str p ≠ 0x2d then do
          let str ← storeByte str head (str (p + 1))
          storeByte str (p + 1) temp
        else pure str
      reverseText (head + 1) p str
    else pure str

/-- The common body. A number of 32 bits has no more than 32 digits, so 33 tests of
    `while(n)` are enough. -/
def itoaBody (t : NumberType) (n : BitVec 32) (str : Text) (radix : BitVec 32) :
    Logged ItoaAccess TextFault Text :=
  if n = 0 then do
    let str ← storeByte str 0 0x30
    storeByte str 1 0
  else do
    let s ←
      if radix = 10 ∧ t.neg n = true then do
        let str ← storeByte str 0 0x2d
        pure (-n, 1, str)
      else pure (n, 0, str)
    let r ← writeDigits t radix 33 s.1 s.2.1 s.2.2
    let str ← storeByte r.2 r.1 0
    reverseText 0 (r.1 - 1) str

/-- `s32_itoa(n, str, radix)` (io/k_stdio.c:74-114). -/
def s32ItoaText (n : BitVec 32) (str : Text) (radix : BitVec 32) :
    Logged ItoaAccess TextFault Text := itoaBody .u32 n str radix

/-- `s32_itoa_s(n, str, radix)` (io/k_stdio.c:32-72). -/
def s32ItoaS (n : BitVec 32) (str : Text) (radix : BitVec 32) :
    Logged ItoaAccess TextFault Text := itoaBody .int n str radix

/-- `itoa(n, str, radix)` (kernel_loader/kernel_loader.c:145-181). -/
def itoa (n : BitVec 32) (str : Text) (radix : BitVec 32) :
    Logged ItoaAccess TextFault Text := itoaBody .int n str radix

/-! ## One access -/

/-- The character of a digit. -/
def digitChar (d : ℕ) : Byte := charByte (itoaDigit d)

theorem digitTable_get : ∀ d < 36, digitTable[d]? = some (digitChar d) := by decide

theorem digitChar_ne : ∀ d < 36, digitChar d ≠ 0x2d ∧ digitChar d ≠ 0 := by decide

section Accesses

variable {P : ItoaAccess → Prop} {str : Text} {p d : ℕ} {c : Byte}

theorem loadDigit_does (hd : d < 36) (hP : P (.digit d)) : Does P (loadDigit d) (digitChar d) := by
  refine Does.bind (Does.emit hP) ?_
  rw [Int.toNat_natCast, digitTable_get d hd]
  exact Does.lift (if_pos (Int.natCast_nonneg d))

theorem storeByte_does (hP : P (.store p)) : Does P (storeByte str p c) (Function.update str p c) :=
  Does.bind (Does.emit hP) Does.pure

end Accesses

/-! ## The digits -/

/-- Below `bound` the division is that of natural numbers. -/
def NumberType.NaturalBelow (t : NumberType) (radix : BitVec 32) (bound : ℕ) : Prop :=
  ∀ m, m.toNat < bound → t.rem m radix = (m.toNat % radix.toNat : ℕ) ∧
    (t.quot m radix).toNat = m.toNat / radix.toNat

theorem u32_naturalBelow (radix : BitVec 32) : NumberType.u32.NaturalBelow radix (2 ^ 32) :=
  fun _ _ => ⟨rfl, rfl⟩

theorem int_naturalBelow {radix : BitVec 32} (hradix : radix.toNat < 2 ^ 31) :
    NumberType.int.NaturalBelow radix (2 ^ 31) := by
  have hpos : ∀ x : BitVec 32, x.toNat < 2 ^ 31 → x.toInt = x.toNat := by
    intro x hx
    exact BitVec.toInt_eq_toNat_of_lt (by omega)
  intro m hm
  have hsign : ∀ x : BitVec 32, x.toNat < 2 ^ 31 → x.msb = false := by
    intro x hx
    rw [BitVec.msb_eq_decide]
    exact decide_eq_false (by omega)
  constructor
  · show (m.srem radix).toInt = _
    rw [BitVec.toInt_srem, hpos m hm, hpos radix hradix]
    rfl
  · show (m.sdiv radix).toNat = _
    rw [BitVec.toNat_sdiv, hsign m hm, hsign radix hradix]
    rfl

section Loops

variable {P : ItoaAccess → Prop} {t : NumberType} {radix n : BitVec 32} {bound fuel p lo hi : ℕ}
  {str : Text}

theorem writeDigits_does (ht : t.NaturalBelow radix bound) (hradix : 2 ≤ radix.toNat)
    (hradix' : radix.toNat ≤ 36) (hn : n.toNat < bound)
    (hfuel : (Nat.digits radix.toNat n.toNat).length < fuel)
    (hdigit : ∀ d < radix.toNat, P (.digit d))
    (hstore : ∀ q < p + (Nat.digits radix.toNat n.toNat).length, P (.store q)) :
    Does P (writeDigits t radix fuel n p str) (p + (Nat.digits radix.toNat n.toNat).length,
      put str p ((Nat.digits radix.toNat n.toNat).map digitChar)) := by
  induction fuel generalizing n p str with
  | zero => omega
  | succ fuel ih =>
    unfold writeDigits
    by_cases hzero : n = 0
    · have hdigits : Nat.digits radix.toNat n.toNat = [] := by
        rw [hzero]
        exact Nat.digits_zero _
      rw [if_neg (not_not.mpr hzero), hdigits, List.map_nil, put_nil]
      exact Does.pure
    · have hpos : 0 < n.toNat := by
        refine Nat.pos_of_ne_zero fun h => hzero ?_
        exact BitVec.eq_of_toNat_eq h
      obtain ⟨hrem, hquot⟩ := ht n hn
      have hlt : n.toNat % radix.toNat < radix.toNat := Nat.mod_lt _ (by omega)
      have hsmaller : (t.quot n radix).toNat < bound := by
        have hle := Nat.div_le_self n.toNat radix.toNat
        omega
      rw [Nat.digits_of_two_le_of_pos hradix hpos, List.length_cons] at hfuel hstore
      rw [Nat.digits_of_two_le_of_pos hradix hpos, ← hquot, List.map_cons, put_cons,
        List.length_cons, ← Nat.add_assoc, Nat.add_right_comm]
      rw [← hquot] at hfuel hstore
      rw [if_pos hzero, hrem]
      apply Does.bind (loadDigit_does (by omega) (hdigit _ hlt))
      apply Does.bind (storeByte_does (hstore p (by omega)))
      refine ih hsmaller (by omega) ?_
      intro q hq
      exact hstore q (by omega)

/-- The loop turns the text around when no minus sign stands between its ends, and none at
    the first of two characters. -/
theorem reverseText_does (hinner : ∀ j, lo < j → j < hi → str j ≠ 0x2d)
    (hpair : hi = lo + 1 → str lo ≠ 0x2d) (hstore : ∀ q ≤ hi, P (.store q)) :
    Does P (reverseText lo hi str) (mirror str lo hi) := by
  induction hi generalizing lo str with
  | zero =>
    rw [mirror_of_le (Nat.zero_le lo)]
    exact Does.pure
  | succ p ih =>
    unfold reverseText
    by_cases hlt : lo < p + 1
    · have hdash : str p ≠ 0x2d := by
        rcases Nat.eq_or_lt_of_le (Nat.le_of_lt_succ hlt) with heq | hlt'
        · rw [← heq]
          exact hpair (by omega)
        · exact hinner p hlt' (Nat.lt_succ_self p)
      rw [if_pos hlt, if_pos hdash, ← mirror_swap hlt]
      apply Does.bind (storeByte_does (hstore lo (by omega)))
      apply Does.bind (storeByte_does (hstore (p + 1) (Nat.le_refl _)))
      refine ih ?_ ?_ fun q hq => hstore q (by omega)
      · intro j hj hj'
        rw [← swap, swap_of_between (by omega) (by omega)]
        exact hinner j (by omega) (by omega)
      · intro hp
        rw [← swap, swap_of_between (by omega) (by omega)]
        exact hinner (lo + 1) (by omega) (by omega)
    · rw [if_neg hlt, mirror_of_le (by omega)]
      exact Does.pure

end Loops

/-! ## The whole body -/

/-- The indices are digits of the radix, and nothing is written behind the offset `len`. -/
def ItoaAccess.Within (radix len : ℕ) : ItoaAccess → Prop
  | .digit i => 0 ≤ i ∧ i < radix
  | .store p => p ≤ len

/-- The characters of the numeral. -/
def numeralText (radix n : ℕ) : List Byte := (numeral radix n).map digitChar

section Body

variable {t : NumberType} {radix n : BitVec 32} {bound : ℕ} {str : Text}

theorem digits_length_le {b : ℕ} (hb : 2 ≤ b) (n : BitVec 32) :
    (Nat.digits b n.toNat).length ≤ 32 := by
  rw [Nat.digits_length_le_iff hb]
  exact Nat.lt_of_lt_of_le n.isLt (Nat.pow_le_pow_left hb 32)

theorem digitChar_ne_dash {b m : ℕ} {c : Byte} (hb : 2 ≤ b) (hb' : b ≤ 36)
    (hc : c ∈ (Nat.digits b m).map digitChar) : c ≠ 0x2d := by
  obtain ⟨d, hd, rfl⟩ := List.mem_map.mp hc
  have hlt : d < b := Nat.digits_lt_base hb hd
  exact (digitChar_ne d (by omega)).1

/-- The digits and the NUL behind what has been written before, up to the last loop. -/
theorem digits_then_does (ht : t.NaturalBelow radix bound) {b m : ℕ} (hb : radix.toNat = b)
    (hm : n.toNat = m) (hradix : 2 ≤ b) (hradix' : b ≤ 36) (hn : m < bound) {l : List Byte}
    {text : Text}
    (hreverse : Does (ItoaAccess.Within b (l.length + (Nat.digits b m).length))
      (reverseText 0 (l.length + (Nat.digits b m).length - 1)
        (put str 0 (l ++ (Nat.digits b m).map digitChar ++ [0]))) text) :
    Does (ItoaAccess.Within b (l.length + (Nat.digits b m).length))
      (do
        let r ← writeDigits t radix 33 n l.length (put str 0 l)
        let str ← storeByte r.2 r.1 0
        reverseText 0 (r.1 - 1) str) text := by
  subst hb hm
  have hlen := digits_length_le hradix n
  apply Does.bind (writeDigits_does ht hradix hradix' hn (by omega)
    (fun d hd => ⟨Int.natCast_nonneg d, Int.ofNat_lt.mpr hd⟩) fun q hq => Nat.le_of_lt hq)
  apply Does.bind (storeByte_does (Nat.le_refl _))
  have htext : Function.update (put (put str 0 l) l.length
        ((Nat.digits radix.toNat n.toNat).map digitChar))
      (l.length + (Nat.digits radix.toNat n.toNat).length) 0 =
        put str 0 (l ++ (Nat.digits radix.toNat n.toNat).map digitChar ++ [0]) := by
    rw [put_append, put_append, put_singleton, List.length_append, List.length_map, Nat.zero_add,
      Nat.zero_add]
  dsimp only
  rw [htext]
  exact hreverse

/-- Without a sign the numeral is written. -/
theorem itoaBody_does (ht : t.NaturalBelow radix bound) (hradix : 2 ≤ radix.toNat)
    (hradix' : radix.toNat ≤ 36) (hn : n.toNat < bound) (hneg : t.neg n = false) :
    Does (ItoaAccess.Within radix.toNat (numeral radix.toNat n.toNat).length)
      (itoaBody t n str radix)
      (put str 0 (numeralText radix.toNat n.toNat ++ [0])) := by
  unfold itoaBody numeralText numeral
  by_cases hzero : n = 0
  · subst hzero
    have h0 : (0 : BitVec 32).toNat = 0 := rfl
    rw [if_pos rfl, h0, if_pos rfl, List.map_singleton, List.singleton_append, put_cons,
      put_singleton]
    exact Does.bind (storeByte_does (Nat.zero_le 1)) (storeByte_does (Nat.le_refl 1))
  · have hpos : n.toNat ≠ 0 := fun h => hzero (BitVec.eq_of_toNat_eq h)
    have hsign : ¬ (radix = 10 ∧ t.neg n = true) := by
      rw [hneg]
      simp
    have hnil : (Nat.digits radix.toNat n.toNat).map digitChar ≠ [] := by
      rw [Ne, List.map_eq_nil_iff]
      exact Nat.digits_ne_nil_iff_ne_zero.mpr hpos
    have hmirror := mirror_put (f := str) (p := 0) (t := [0]) hnil
    rw [if_neg hzero, if_neg hsign, if_neg hpos, List.length_reverse, List.map_reverse, ← hmirror,
      List.length_map, Nat.zero_add]
    apply Does.bind Does.pure
    have hlen := List.length_pos_iff.mpr hnil
    rw [List.length_map] at hlen
    have hdash : ∀ j < (Nat.digits radix.toNat n.toNat).length,
        put str 0 ([] ++ (Nat.digits radix.toNat n.toNat).map digitChar ++ [0]) j ≠ 0x2d := by
      intro j hj
      have hmem := put_add_mem (f := str) (p := 0) (i := j) (t := [0])
        (l := (Nat.digits radix.toNat n.toNat).map digitChar) (by rwa [List.length_map])
      rw [Nat.zero_add] at hmem
      exact digitChar_ne_dash hradix hradix' hmem
    have hreverse : Does (ItoaAccess.Within radix.toNat (Nat.digits radix.toNat n.toNat).length)
        (reverseText 0 ((Nat.digits radix.toNat n.toNat).length - 1) (put str 0
          ([] ++ (Nat.digits radix.toNat n.toNat).map digitChar ++ [0]))) _ :=
      reverseText_does (fun j _ hj => hdash j (by omega)) (fun _ => hdash 0 hlen) fun q hq => by
        show q ≤ _
        omega
    rw [← Nat.zero_add (Nat.digits radix.toNat n.toNat).length] at hreverse ⊢
    have hthen := digits_then_does (l := []) ht rfl rfl hradix hradix' hn hreverse
    rwa [put_nil] at hthen

end Body

/-! ## Unsigned numbers -/

/-- The digit that a character stands for. -/
def charDigit (c : Byte) : ℕ := digitTable.idxOf c

theorem charDigit_digitChar : ∀ d < 36, charDigit (digitChar d) = d := by decide

/-- The value of a text in a radix. -/
def textValue (radix : ℕ) (text : List Byte) : ℕ := value radix (text.map charDigit)

section Unsigned

variable {radix n : ℕ}

theorem textValue_digits {ds : List ℕ} (hds : ∀ d ∈ ds, d < 36) :
    textValue radix (ds.map digitChar) = value radix ds := by
  unfold textValue
  rw [List.map_map]
  congr 1
  calc ds.map (charDigit ∘ digitChar) = ds.map id :=
        List.map_congr_left fun d hd => charDigit_digitChar d (hds d hd)
    _ = ds := List.map_id ds

theorem itoaLoop_eq_digits (hradix : 2 ≤ radix) {fuel : ℕ}
    (hfuel : (Nat.digits radix n).length ≤ fuel) :
    itoaLoop radix fuel n = (Nat.digits radix n).map itoaDigit := by
  induction fuel generalizing n with
  | zero =>
    rw [List.length_eq_zero_iff.mp (Nat.le_zero.mp hfuel)]
    rfl
  | succ fuel ih =>
    unfold itoaLoop
    by_cases hzero : n = 0
    · rw [if_neg (not_not.mpr hzero), hzero, Nat.digits_zero]
      rfl
    · have hdigits := Nat.digits_of_two_le_of_pos hradix (Nat.pos_of_ne_zero hzero)
      rw [hdigits, List.length_cons] at hfuel
      rw [if_pos hzero, hdigits, List.map_cons, ih (by omega)]

/-- The characters of the numeral are those that the output functions print. -/
theorem s32Itoa_eq_numeralText (hradix : 2 ≤ radix) (n : BitVec 32) :
    (s32Itoa n radix).map charByte = numeralText radix n.toNat := by
  have hlen := digits_length_le hradix n
  unfold s32Itoa numeralText numeral
  by_cases hzero : n = 0
  · rw [if_pos hzero, hzero]
    rfl
  · have hpos : n.toNat ≠ 0 := fun h => hzero (BitVec.eq_of_toNat_eq h)
    rw [if_neg hzero, if_neg hpos, itoaLoop_eq_digits hradix hlen, ← List.map_reverse, List.map_map]
    rfl

theorem numeralText_ne_zero {c : Byte} (hradix : 2 ≤ radix) (hradix' : radix ≤ 36)
    (hc : c ∈ numeralText radix n) : c ≠ 0 := by
  obtain ⟨d, hd, rfl⟩ := List.mem_map.mp hc
  have hlt := (isNumeral_numeral hradix n).digits d hd
  exact (digitChar_ne d (by omega)).2

theorem numeral_length_word (n : BitVec 32) (hradix : radix = 10 ∨ radix = 16) :
    (numeral radix n.toNat).length ≤ 10 := by
  have hlt := n.isLt
  rcases hradix with rfl | rfl
  · exact numeral_length_le (by omega) (by omega) (by omega)
  · exact numeral_length_le (by omega) (by omega) (by omega)

end Unsigned

theorem s32ItoaText_does (n : BitVec 32) (str : Text) {radix : BitVec 32} (hradix : 2 ≤ radix.toNat)
    (hradix' : radix.toNat ≤ 36) :
    Does (ItoaAccess.Within radix.toNat (numeral radix.toNat n.toNat).length)
      (s32ItoaText n str radix) (put str 0 (numeralText radix.toNat n.toNat ++ [0])) :=
  itoaBody_does (u32_naturalBelow radix) hradix hradix' n.isLt rfl

/-- For every word and every radix `s32_itoa` returns and writes the numeral and a NUL, and
    nothing behind it; the numeral has the value of the word; in the radices 10 and 16 there
    are no more than 11 bytes. `s32_print_int` prints the same characters. -/
theorem s32ItoaText_numeral (n : BitVec 32) (str : Text) {radix : BitVec 32}
    (hradix : 2 ≤ radix.toNat) (hradix' : radix.toNat ≤ 36) :
    ∃ ds, IsNumeral radix.toNat n.toNat ds ∧
      (s32ItoaText n str radix).result = .ok (put str 0 (ds.map digitChar ++ [0])) ∧
      (∀ e ∈ (s32ItoaText n str radix).log, e.Within radix.toNat ds.length) ∧
      textValue radix.toNat (ds.map digitChar) = n.toNat ∧
      (radix = 10 ∨ radix = 16 → ds.length + 1 ≤ 11) ∧
      ∀ vb, s32PrintInt n vb radix.toNat = s32PrintStr (ds.map digitChar) vb := by
  have hnumeral : IsNumeral radix.toNat n.toNat (numeral radix.toNat n.toNat) :=
    isNumeral_numeral hradix n.toNat
  have hdoes := s32ItoaText_does n str hradix hradix'
  refine ⟨numeral radix.toNat n.toNat, hnumeral, hdoes.result, hdoes.log, ?_, fun hten => ?_,
    fun vb => ?_⟩
  · rw [textValue_digits, hnumeral.value]
    intro d hd
    have hlt := hnumeral.digits d hd
    omega
  · have hword : radix.toNat = 10 ∨ radix.toNat = 16 :=
      hten.imp (congrArg BitVec.toNat) (congrArg BitVec.toNat)
    have hlen := numeral_length_word n hword
    omega
  · unfold s32PrintInt
    rw [s32Itoa_eq_numeralText hradix]
    rfl

/-- The largest word. -/
theorem s32ItoaText_numeral_max : ∃ ds, IsNumeral 10 4294967295 ds ∧ ds.length + 1 ≤ 11 ∧
    (s32ItoaText 0xffffffff (fun _ => 0) 10).result =
      .ok (put (fun _ => 0) 0 (ds.map digitChar ++ [0])) := by
  obtain ⟨ds, hds, hresult, _, _, hlen, _⟩ := s32ItoaText_numeral 0xffffffff (fun _ => 0)
    (show 2 ≤ (10 : BitVec 32).toNat by decide) (by decide)
  exact ⟨ds, hds, hlen (.inl rfl), hresult⟩

end SimpleOs
