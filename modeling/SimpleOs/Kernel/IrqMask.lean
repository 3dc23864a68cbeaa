import SimpleOs.Lib.ByteMem
import SimpleOs.Lib.Transition

/-!
# The interrupt masks

`disable_irq` and `enable_irq` (asm_func.S:3-55) on the mask registers of the two 8259A. Where
the number is at least 8, both read the mask of the slave but write it to the master.

* `irqRun_bookkept_iff`: the masks stay right if and only if no call for the slave has
  anything to do.
-/

namespace SimpleOs

open ByteMem Transition

/-! ## The code -/

/-- The registers behind `INT_M_CTLMASK` and `INT_S_CTLMASK`. -/
structure Pic where
  master : Byte
  slave : Byte
  deriving DecidableEq

/-- `disable_irq` (asm_func.S:3-33), with what it returns in `%eax`. -/
def disableIrq (p : Pic) (irqNo : BitVec 32) : BitVec 32 × Pic :=
  let cl : Byte := irqNo.setWidth 8
  let ah : Byte := (1 : Byte).rotateLeft cl.toNat
  if 8 ≤ cl then
    let al := p.slave
    if al &&& ah ≠ 0 then (0, p) else (1, { p with master := al ||| ah })
  else
    let al := p.master
    if al &&& ah ≠ 0 then (0, p) else (1, { p with master := al ||| ah })

/-- `enable_irq` (asm_func.S:35-55). -/
def enableIrq (p : Pic) (irqNo : BitVec 32) : Pic :=
  let cl : Byte := irqNo.setWidth 8
  let ah : Byte := (~~~1 : Byte).rotateLeft cl.toNat
  if 8 ≤ cl then
    let al := p.slave
    { p with master := al &&& ah }
  else
    let al := p.master
    { p with master := al &&& ah }

/-! ## The mask -/

/-- The number of an interrupt. -/
abbrev Irq := Fin 16

/-- The argument. -/
def Irq.arg (n : Irq) : BitVec 32 := BitVec.ofNat 32 n.val

/-- Its bit in the mask of 16 bits, and in the register of its controller. -/
def Irq.bit (n : Irq) : BitVec 16 := 1 <<< n.val

def Irq.byte (n : Irq) : Byte := 1 <<< (n.val % 8)

/-- Both masks, the slave's in the upper half. -/
def Pic.mask (p : Pic) : BitVec 16 := p.slave ++ p.master

/-- The rotated bit is the bit of the controller. -/
theorem rotateLeft_arg : ∀ n : Irq,
    (1 : Byte).rotateLeft (n.arg.setWidth 8).toNat = n.byte ∧
      (~~~1 : Byte).rotateLeft (n.arg.setWidth 8).toNat = ~~~n.byte ∧
      (8 ≤ (n.arg.setWidth 8 : Byte) ↔ 8 ≤ n.val) := by
  decide

theorem bit_eq_append : ∀ n : Irq,
    n.bit = if 8 ≤ n.val then n.byte ++ (0 : Byte) else (0 : Byte) ++ n.byte := by
  decide

theorem mask_getLsbD (p : Pic) (n : Irq) : p.mask.getLsbD n.val =
    if 8 ≤ n.val then p.slave.getLsbD (n.val % 8) else p.master.getLsbD (n.val % 8) := by
  have hn := n.isLt
  unfold Pic.mask
  rw [BitVec.getLsbD_append]
  by_cases h8 : 8 ≤ n.val
  · rw [if_pos h8, if_neg (by omega), show n.val % 8 = n.val - 8 by omega]
  · rw [if_neg h8, if_pos (by omega), show n.val % 8 = n.val by omega]

/-- What `test`, `or` and `and` do with a bit. -/
theorem bit_test : ∀ (al : Byte) (i : Fin 8),
    (al &&& 1 <<< i.val ≠ 0 ↔ al.getLsbD i.val = true) ∧
      (al ||| 1 <<< i.val = al ↔ al.getLsbD i.val = true) ∧
      (al &&& ~~~(1 <<< i.val : Byte) = al ↔ al.getLsbD i.val = false) := by
  decide

theorem Irq.byte_test (al : Byte) (n : Irq) :
    (al &&& n.byte ≠ 0 ↔ al.getLsbD (n.val % 8) = true) ∧
      (al ||| n.byte = al ↔ al.getLsbD (n.val % 8) = true) ∧
      (al &&& ~~~n.byte = al ↔ al.getLsbD (n.val % 8) = false) :=
  bit_test al ⟨n.val % 8, Nat.mod_lt _ (by omega)⟩

theorem Pic.mask_or_bit (p : Pic) (n : Irq) : p.mask ||| n.bit =
    if 8 ≤ n.val then (p.slave ||| n.byte) ++ p.master else p.slave ++ (p.master ||| n.byte) := by
  have hzero : ∀ b : Byte, b ||| 0 = b := fun _ => BitVec.or_zero
  unfold Pic.mask
  rw [bit_eq_append]
  split_ifs
  · rw [BitVec.or_append, hzero]
  · rw [BitVec.or_append, hzero]

theorem Pic.mask_and_not_bit (p : Pic) (n : Irq) : p.mask &&& ~~~n.bit =
    if 8 ≤ n.val then (p.slave &&& ~~~n.byte) ++ p.master
    else p.slave ++ (p.master &&& ~~~n.byte) := by
  have hones : ~~~(0 : Byte) = BitVec.allOnes 8 := rfl
  unfold Pic.mask
  rw [bit_eq_append]
  split_ifs
  · rw [BitVec.not_append, BitVec.and_append, hones, BitVec.and_allOnes]
  · rw [BitVec.not_append, BitVec.and_append, hones, BitVec.and_allOnes]

/-! ## One call -/

/-- The first result says whether the bit was clear. -/
theorem disableIrq_ret (p : Pic) (n : Irq) :
    (disableIrq p n.arg).1 = if p.mask.getLsbD n.val = true then 0 else 1 := by
  obtain ⟨hrot, -, h8⟩ := rotateLeft_arg n
  unfold disableIrq
  simp only [hrot, h8, (Irq.byte_test _ n).1, mask_getLsbD]
  split_ifs <;> rfl

theorem disableIrq_mask_iff (p : Pic) (n : Irq) :
    (disableIrq p n.arg).2.mask = p.mask ||| n.bit ↔
      n.val < 8 ∨ p.mask.getLsbD n.val = true := by
  obtain ⟨hrot, -, h8⟩ := rotateLeft_arg n
  unfold disableIrq
  simp only [hrot, h8, (Irq.byte_test _ n).1, mask_getLsbD, Pic.mask_or_bit]
  by_cases hslave : 8 ≤ n.val
  · simp only [if_pos hslave, not_lt.mpr hslave, false_or]
    by_cases hbit : p.slave.getLsbD (n.val % 8) = true
    · -- nothing to do
      rw [if_pos hbit, ((Irq.byte_test p.slave n).2.1).mpr hbit]
      exact iff_of_true rfl hbit
    · -- the bit is not in the slave's register afterwards
      rw [if_neg hbit]
      refine iff_of_false (fun heq => hbit ?_) hbit
      have hhigh := congrArg (BitVec.extractLsb' 8 8) heq
      unfold Pic.mask at hhigh
      rw [BitVec.extractLsb'_append_eq_left, BitVec.extractLsb'_append_eq_left] at hhigh
      exact ((Irq.byte_test p.slave n).2.1).mp hhigh.symm
  · simp only [if_neg hslave, not_le.mp hslave, true_or, iff_true]
    by_cases hbit : p.master.getLsbD (n.val % 8) = true
    · rw [if_pos hbit, ((Irq.byte_test p.master n).2.1).mpr hbit]
      rfl
    · rw [if_neg hbit]
      rfl

theorem enableIrq_mask_iff (p : Pic) (n : Irq) :
    (enableIrq p n.arg).mask = p.mask &&& ~~~n.bit ↔
      n.val < 8 ∨ p.mask.getLsbD n.val = false ∧ p.slave = p.master := by
  obtain ⟨-, hrot, h8⟩ := rotateLeft_arg n
  unfold enableIrq
  simp only [hrot, h8, mask_getLsbD, Pic.mask_and_not_bit]
  by_cases hslave : 8 ≤ n.val
  · simp only [if_pos hslave, not_lt.mpr hslave, false_or]
    constructor
    · intro heq
      have hhigh := congrArg (BitVec.extractLsb' 8 8) heq
      have hlow := congrArg (BitVec.extractLsb' 0 8) heq
      unfold Pic.mask at hhigh hlow
      rw [BitVec.extractLsb'_append_eq_left, BitVec.extractLsb'_append_eq_left] at hhigh
      rw [BitVec.extractLsb'_append_eq_right, BitVec.extractLsb'_append_eq_right] at hlow
      exact ⟨((Irq.byte_test p.slave n).2.2).mp hhigh.symm, hhigh.trans hlow⟩
    · rintro ⟨hbit, hsame⟩
      have hclear := ((Irq.byte_test p.slave n).2.2).mpr hbit
      rw [hclear, hsame]
      rfl
  · simp only [if_neg hslave, not_le.mp hslave, true_or, iff_true]
    rfl

/-! ## A sequence of calls -/

inductive IrqCall where
  | disable (n : Irq)
  | enable (n : Irq)

def IrqCall.perform (p : Pic) : IrqCall → Pic
  | .disable n => (disableIrq p n.arg).2
  | .enable n => enableIrq p n.arg

/-- The registers behind the calls. -/
def irqRun (p : Pic) (calls : List IrqCall) : Pic := calls.foldl IrqCall.perform p

theorem irqRun_concat (p : Pic) (calls : List IrqCall) (call : IrqCall) :
    irqRun p (calls ++ [call]) = call.perform (irqRun p calls) := by
  simp [irqRun]

/-- What a call is for: its bit is set or cleared, and no other. -/
def IrqCall.apply (mask : BitVec 16) : IrqCall → BitVec 16
  | .disable n => mask ||| n.bit
  | .enable n => mask &&& ~~~n.bit

/-- The mask that the calls should leave. -/
def maskAfter (mask : BitVec 16) (calls : List IrqCall) : BitVec 16 :=
  calls.foldl IrqCall.apply mask

theorem maskAfter_concat (mask : BitVec 16) (calls : List IrqCall) (call : IrqCall) :
    maskAfter mask (calls ++ [call]) = call.apply (maskAfter mask calls) := by
  simp [maskAfter]

/-- The call is for the master, or finds the bit as it should be; an enabling call copies the
    slave's mask to the master all the same. -/
def IrqCall.Harmless (mask : BitVec 16) : IrqCall → Prop
  | .disable n => n.val < 8 ∨ mask.getLsbD n.val = true
  | .enable n => n.val < 8 ∨
      mask.getLsbD n.val = false ∧ mask.extractLsb' 8 8 = mask.extractLsb' 0 8

theorem perform_mask_iff (p : Pic) (call : IrqCall) :
    (call.perform p).mask = call.apply p.mask ↔ call.Harmless p.mask := by
  cases call with
  | disable n => exact disableIrq_mask_iff p n
  | enable n =>
    have hhigh : p.mask.extractLsb' 8 8 = p.slave := BitVec.extractLsb'_append_eq_left
    have hlow : p.mask.extractLsb' 0 8 = p.master := BitVec.extractLsb'_append_eq_right
    show (enableIrq p n.arg).mask = p.mask &&& ~~~n.bit ↔ n.val < 8 ∨
      p.mask.getLsbD n.val = false ∧ p.mask.extractLsb' 8 8 = p.mask.extractLsb' 0 8
    rw [hhigh, hlow]
    exact enableIrq_mask_iff p n

/-- Behind every call the masks are as they should be, and each call of `disable_irq` has
    returned 1 exactly if its bit was clear. -/
structure Bookkept (p : Pic) (calls : List IrqCall) : Prop where
  mask : ∀ pre, pre <+: calls → (irqRun p pre).mask = maskAfter p.mask pre
  ret : ∀ pre n, pre ++ [.disable n] <+: calls →
    ((disableIrq (irqRun p pre) n.arg).1 = 1 ↔ (maskAfter p.mask pre).getLsbD n.val = false)

theorem irqRun_mask_iff (p : Pic) (calls : List IrqCall) :
    (∀ pre, pre <+: calls → (irqRun p pre).mask = maskAfter p.mask pre) ↔
      ∀ pre call, pre ++ [call] <+: calls → call.Harmless (maskAfter p.mask pre) := by
  constructor
  · intro hmask pre call hpre
    have hbefore := hmask pre ((List.prefix_append ..).trans hpre)
    have hafter := hmask (pre ++ [call]) hpre
    rw [irqRun_concat, maskAfter_concat, ← hbefore] at hafter
    rw [← hbefore]
    exact (perform_mask_iff _ call).mp hafter
  · intro hharmless pre hpre
    refine prefix_induction (P := fun pre => (irqRun p pre).mask = maskAfter p.mask pre) ?_ ?_ hpre
    · rfl
    · intro pre call hcall hbefore
      have hcall' := hharmless pre call hcall
      rw [← hbefore] at hcall'
      rw [irqRun_concat, maskAfter_concat, ← hbefore]
      exact (perform_mask_iff _ call).mpr hcall'

/-- For all masks and all sequences of calls: the masks are always as they should be, and the
    results of `disable_irq` too, if and only if each call is for the master or finds its bit
    as it should be, an enabling one with both masks equal. -/
theorem irqRun_bookkept_iff (p : Pic) (calls : List IrqCall) :
    Bookkept p calls ↔
      ∀ pre call, pre ++ [call] <+: calls → call.Harmless (maskAfter p.mask pre) := by
  rw [← irqRun_mask_iff]
  refine ⟨fun h => h.mask, fun hmask => ⟨hmask, fun pre n hpre => ?_⟩⟩
  rw [← hmask pre ((List.prefix_append _ _).trans hpre), disableIrq_ret]
  split_ifs with hbit
  · rw [hbit]
    decide
  · exact iff_of_true rfl (eq_false_of_ne_true hbit)

/-- Interrupt 8 is disabled: the master gets the slave's mask, and interrupt 0 is disabled
    instead. -/
theorem slave_goes_to_master :
    (irqRun ⟨0, 0⟩ [.disable 8]).mask = 0x0001 ∧ ¬ Bookkept ⟨0, 0⟩ [.disable 8] := by
  refine ⟨by decide, fun h => ?_⟩
  have hmask := h.mask [.disable 8] (List.prefix_refl _)
  exact absurd hmask (by decide)

end SimpleOs
