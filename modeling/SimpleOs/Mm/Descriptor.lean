import SimpleOs.Lib.LittleEndian
import SimpleOs.Mm.Identity

/-!
# Segment descriptors

`init_descriptor` shifts the limit to the left before it takes four bits of it
(include/protect.h:76), so nothing of the limit comes into the sixth byte.

* `initDescriptor_eq`: the six fields, as bytes of the arguments.
* `initDescriptor_roundTrip_iff`: which descriptors come back, and agree with the macro of
  the assembler.
* `four_gigabytes`: the segment of the whole memory.
-/

namespace SimpleOs

open LittleEndian

/-! ## The bytes -/

/-- The descriptor as it lies in a table. -/
def Descriptor.bytes (d : Descriptor) : List (BitVec 8) :=
  LittleEndian.bytes 2 d.limitLow ++ LittleEndian.bytes 2 d.baseLow ++
    [d.baseMid, d.attr1, d.limitHighAttr2, d.baseHigh]

/-- The macro `Descriptor Base, Limit, Attr` (include/pm.h:71-77): two `.2byte`, a `.byte`,
    a `.2byte` and a `.byte`. -/
def pmDescriptor (base limit attr : BitVec 32) : List (BitVec 8) :=
  LittleEndian.bytes 2 (limit &&& 0xffff) ++ LittleEndian.bytes 2 (base &&& 0xffff) ++
    LittleEndian.bytes 1 (base >>> 16 &&& 0xff) ++
    LittleEndian.bytes 2 (limit >>> 8 &&& 0xf00 ||| attr &&& 0xf0ff) ++
    LittleEndian.bytes 1 (base >>> 24 &&& 0xff)

/-- The attribute word of a descriptor, whose bits 8 to 11 belong to the limit. -/
def segAttr (d : Descriptor) : BitVec 16 := (d.limitHighAttr2 &&& 0xf0) ++ d.attr1

/-! ### The fields that `init_descriptor` writes -/

theorem setWidth_mask {w : ℕ} (n : ℕ) {v mask : BitVec w}
    (hmask : mask.setWidth n = BitVec.allOnes n) :
    (v &&& mask).setWidth n = v.setWidth n := by
  rw [BitVec.setWidth_and, hmask, BitVec.and_allOnes]

/-- The four bits of the limit are shifted away. -/
theorem limit_shifted (limit : BitVec 32) : limit <<< 16 &&& 0x0f = 0 := by
  apply BitVec.eq_of_toNat_eq
  have hmask := Nat.and_two_pow_sub_one_eq_mod (limit <<< 16).toNat 4
  have hshift : (limit <<< 16).toNat = limit.toNat * 2 ^ 16 % 2 ^ 32 := by
    rw [BitVec.toNat_shiftLeft, Nat.shiftLeft_eq]
  rw [BitVec.toNat_and]
  show (limit <<< 16).toNat &&& (2 ^ 4 - 1) = 0
  omega

theorem initDescriptor_eq (base limit : BitVec 32) (attr : BitVec 16) :
    initDescriptor base limit attr =
      { limitLow := limit.setWidth 16
        baseLow := base.setWidth 16
        baseMid := byteOf base 2
        attr1 := byteOf attr 0
        limitHighAttr2 := byteOf attr 1 &&& 0xf0
        baseHigh := byteOf base 3 } := by
  have hmid : (base >>> 16 &&& 0xff).setWidth 8 = byteOf base 2 := by
    rw [setWidth_mask 8 (by decide), setWidth_eq_byteOf]
    exact byteOf_shift base 2 0
  have hattr1 : (attr &&& 0xff).setWidth 8 = byteOf attr 0 := by
    rw [setWidth_mask 8 (by decide), setWidth_eq_byteOf]
  have hattr2 : (limit <<< 16 &&& 0x0f).setWidth 8 ||| (attr >>> 8 &&& 0xf0).setWidth 8 =
      byteOf attr 1 &&& 0xf0 := by
    rw [limit_shifted, BitVec.setWidth_and]
    show (0 : BitVec 8) ||| (attr >>> (8 * 1)).setWidth 8 &&& 0xf0 = _
    rw [setWidth_eq_byteOf, byteOf_shift]
    exact BitVec.zero_or
  have hhigh : (base >>> 24 &&& 0xff).setWidth 8 = byteOf base 3 := by
    rw [setWidth_mask 8 (by decide), setWidth_eq_byteOf]
    exact byteOf_shift base 3 0
  unfold initDescriptor
  rw [setWidth_mask 16 (by decide), setWidth_mask 16 (by decide), hmid, hattr1, hattr2, hhigh]

/-! ### What is decoded -/

section Decoded

variable {base limit : BitVec 32} {attr : BitVec 16}

theorem segBase_initDescriptor (base limit : BitVec 32) (attr : BitVec 16) :
    segBase (initDescriptor base limit attr) = base := by
  have h2 := toNat_byteOf base 2
  have h3 := toNat_byteOf base 3
  have hlt := base.isLt
  rw [initDescriptor_eq]
  unfold segBase
  apply BitVec.eq_of_toNat_eq
  simp only [BitVec.toNat_add, BitVec.toNat_shiftLeft, BitVec.toNat_setWidth, Nat.shiftLeft_eq]
  omega

/-- Only the low half of the limit comes back. -/
theorem segLimit_initDescriptor (base limit : BitVec 32) (attr : BitVec 16) :
    (segLimit (initDescriptor base limit attr)).toNat = limit.toNat % 0x10000 := by
  have hnibble : (byteOf attr 1 &&& 0xf0) &&& 0xf = 0 := by
    rw [BitVec.and_assoc]
    exact BitVec.and_zero
  rw [initDescriptor_eq]
  unfold segLimit
  dsimp only
  have hzero : (0 : BitVec 8).toNat = 0 := rfl
  rw [hnibble]
  simp only [BitVec.toNat_add, BitVec.toNat_shiftLeft, BitVec.toNat_setWidth, Nat.shiftLeft_eq,
    hzero]
  omega

/-- The bits of the attribute word that belong to the limit are not set. -/
theorem byteOf_one_mask (hattr : attr &&& 0x0f00 = 0) : byteOf attr 1 &&& 0xf0 = byteOf attr 1 := by
  have hlow : ∀ j < 4, attr.getLsbD (8 + j) = false := by
    intro j hj
    have hmask : ∀ j < 4, (0x0f00 : BitVec 16).getLsbD (8 + j) = true := by decide
    have hbit : (attr &&& 0x0f00).getLsbD (8 + j) = false := by
      rw [hattr]
      exact BitVec.getLsbD_zero
    rwa [BitVec.getLsbD_and, hmask j hj, Bool.and_true] at hbit
  have hmask : ∀ j < 8, (0xf0 : BitVec 8).getLsbD j = decide (4 ≤ j) := by decide
  apply BitVec.eq_of_getLsbD_eq
  intro j hj
  rw [BitVec.getLsbD_and, hmask j hj]
  unfold byteOf
  rw [BitVec.getLsbD_extractLsb']
  by_cases h4 : 4 ≤ j
  · simp [h4]
  · simp [h4, hlow j (by omega)]

theorem segAttr_initDescriptor (hattr : attr &&& 0x0f00 = 0) :
    segAttr (initDescriptor base limit attr) = attr := by
  rw [initDescriptor_eq]
  unfold segAttr
  dsimp only
  rw [byteOf_one_mask hattr, byteOf_one_mask hattr, (append_byteOf_zero attr 1).mpr rfl,
    BitVec.setWidth_eq]

end Decoded

/-! ### The macro -/

section Macro

variable {base limit : BitVec 32} {attr : BitVec 16}

theorem bytes_initDescriptor (base limit : BitVec 32) (attr : BitVec 16) :
    (initDescriptor base limit attr).bytes =
      [byteOf limit 0, byteOf limit 1, byteOf base 0, byteOf base 1, byteOf base 2, byteOf attr 0,
        byteOf attr 1 &&& 0xf0, byteOf base 3] := by
  rw [initDescriptor_eq]
  unfold Descriptor.bytes
  dsimp only
  rw [bytes_two, bytes_two, byteOf_setWidth _ (by omega), byteOf_setWidth _ (by omega),
    byteOf_setWidth _ (by omega), byteOf_setWidth _ (by omega)]
  rfl

theorem pmDescriptor_eq (base limit : BitVec 32) (attr : BitVec 16) :
    pmDescriptor base limit (attr.setWidth 32) =
      [byteOf limit 0, byteOf limit 1, byteOf base 0, byteOf base 1, byteOf base 2, byteOf attr 0,
        byteOf limit 2 &&& 0x0f ||| byteOf attr 1 &&& 0xf0, byteOf base 3] := by
  have hff (v : BitVec 8) : v &&& 0xff = v := BitVec.and_allOnes
  have hlow : byteOf (0xffff : BitVec 32) 0 = 0xff ∧ byteOf (0xffff : BitVec 32) 1 = 0xff ∧
      byteOf (0xff : BitVec 32) 0 = 0xff := by decide
  have hhigh : byteOf (0xf00 : BitVec 32) 0 = 0 ∧ byteOf (0xf00 : BitVec 32) 1 = 0x0f ∧
      byteOf (0xf0ff : BitVec 32) 0 = 0xff ∧ byteOf (0xf0ff : BitVec 32) 1 = 0xf0 := by decide
  have hlimit : ∀ i, byteOf (limit >>> 8) i = byteOf limit (1 + i) := byteOf_shift limit 1
  have hmid : byteOf (base >>> 16) 0 = byteOf base 2 := byteOf_shift base 2 0
  have hbase : byteOf (base >>> 24) 0 = byteOf base 3 := byteOf_shift base 3 0
  have hnone (v : BitVec 8) : v &&& 0 ||| byteOf attr 0 = byteOf attr 0 := by
    show v &&& 0#8 ||| byteOf attr 0 = byteOf attr 0
    rw [BitVec.and_zero, BitVec.zero_or]
  unfold pmDescriptor
  simp only [bytes_one, bytes_two, byteOf_and, byteOf_or, hlow, hhigh, hlimit, hmid, hbase, hff,
    byteOf_setWidth attr (show 8 * 0 + 8 ≤ 32 by omega),
    byteOf_setWidth attr (show 8 * 1 + 8 ≤ 32 by omega), hnone]
  rfl

/-- The four bits of the limit that the macro has and `init_descriptor` has not. -/
theorem nibble_or_iff (hlimit : limit.toNat < 0x100000) (attr : BitVec 16) :
    byteOf attr 1 &&& 0xf0 = byteOf limit 2 &&& 0x0f ||| byteOf attr 1 &&& 0xf0 ↔
      limit.toNat < 0x10000 := by
  have hnibble : (byteOf limit 2 &&& 0x0f).toNat = limit.toNat / 0x10000 := by
    have hmask := Nat.and_two_pow_sub_one_eq_mod (byteOf limit 2).toNat 4
    have hbyte := toNat_byteOf limit 2
    rw [BitVec.toNat_and]
    show (byteOf limit 2).toNat &&& (2 ^ 4 - 1) = _
    omega
  have hzero : byteOf limit 2 &&& 0x0f = 0 ↔ limit.toNat < 0x10000 := by
    rw [← BitVec.toNat_inj, hnibble]
    show limit.toNat / 0x10000 = 0 ↔ _
    omega
  rw [← hzero]
  constructor
  · intro h
    -- the upper half has no bit of the lower
    have hlow : (byteOf attr 1 &&& 0xf0) &&& 0x0f =
        (byteOf limit 2 &&& 0x0f ||| byteOf attr 1 &&& 0xf0) &&& 0x0f := by
      rw [← h]
    have hdisjoint : (byteOf attr 1 &&& 0xf0) &&& 0x0f = 0 := by
      rw [BitVec.and_assoc]
      exact BitVec.and_zero
    have hsame : (byteOf limit 2 &&& 0x0f) &&& 0x0f = byteOf limit 2 &&& 0x0f := by
      rw [BitVec.and_assoc, BitVec.and_self]
    have hdistrib (x y m : BitVec 8) : (x ||| y) &&& m = x &&& m ||| y &&& m := by
      rw [BitVec.and_comm, BitVec.and_or_distrib_left, BitVec.and_comm, BitVec.and_comm m y]
    rw [hdistrib, hdisjoint, hsame] at hlow
    rw [hlow]
    exact BitVec.or_zero.symm
  · intro h
    rw [h]
    exact BitVec.zero_or.symm

end Macro

/-! ## The round trip -/

/-- `do_fork` and whoever takes the attributes find what `init_descriptor` was given. -/
structure RoundTrips (base limit : BitVec 32) (attr : BitVec 16) : Prop where
  sameBase : segBase (initDescriptor base limit attr) = base
  sameLimit : segLimit (initDescriptor base limit attr) = limit
  sameAttr : segAttr (initDescriptor base limit attr) = attr

/-- For every base, every limit of 20 bits and every attribute word: the base and the
    attributes come back in any case; the limit does, and the eight bytes are those of the
    macro, if and only if the limit has no more than 16 bits. -/
theorem initDescriptor_roundTrip_iff (base : BitVec 32) {limit : BitVec 32} {attr : BitVec 16}
    (hlimit : limit.toNat < 0x100000) (hattr : attr &&& 0x0f00 = 0) :
    (segBase (initDescriptor base limit attr) = base ∧
      segAttr (initDescriptor base limit attr) = attr) ∧
    (RoundTrips base limit attr ↔ limit.toNat < 0x10000) ∧
    ((initDescriptor base limit attr).bytes = pmDescriptor base limit (attr.setWidth 32) ↔
      limit.toNat < 0x10000) := by
  have hbase := segBase_initDescriptor base limit attr
  have hbits : segAttr (initDescriptor base limit attr) = attr := segAttr_initDescriptor hattr
  have hlow := segLimit_initDescriptor base limit attr
  refine ⟨⟨hbase, hbits⟩, ?_, ?_⟩
  · constructor
    · intro h
      have hsame := h.sameLimit
      rw [← BitVec.toNat_inj] at hsame
      omega
    · intro h
      refine ⟨hbase, BitVec.eq_of_toNat_eq ?_, hbits⟩
      omega
  · rw [bytes_initDescriptor, pmDescriptor_eq, ← nibble_or_iff hlimit attr]
    simp only [List.cons.injEq, true_and, and_true]

theorem initDescriptor_roundTrip_iff_child :
    RoundTrips 0xa00000 0x3ff (DA_LIMIT_4K ||| DA_32 ||| DA_DRW) :=
  (initDescriptor_roundTrip_iff 0xa00000 (by decide) (by decide)).2.1.mpr (by decide)

/-- The segment of the whole memory, in pages: its limit comes back as 0xffff, and the macro
    has another byte. -/
theorem four_gigabytes :
    segLimit (initDescriptor 0 0xfffff (DA_LIMIT_4K ||| DA_32 ||| DA_DRW)) = 0xffff ∧
      ¬ RoundTrips 0 0xfffff (DA_LIMIT_4K ||| DA_32 ||| DA_DRW) ∧
      (initDescriptor 0 0xfffff (DA_LIMIT_4K ||| DA_32 ||| DA_DRW)).bytes ≠
        pmDescriptor 0 0xfffff ((DA_LIMIT_4K ||| DA_32 ||| DA_DRW).setWidth 32) := by
  have hlimit :
      segLimit (initDescriptor 0 0xfffff (DA_LIMIT_4K ||| DA_32 ||| DA_DRW)) = 0xffff := by
    decide
  refine ⟨hlimit, fun h => ?_, by decide⟩
  have hsame := h.sameLimit
  rw [hlimit] at hsame
  exact absurd hsame (by decide)

end SimpleOs
