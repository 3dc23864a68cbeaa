import Mathlib.Algebra.Group.Nat.Defs
import Mathlib.Data.Nat.Basic
import Mathlib.Logic.Function.Basic
import Mathlib.Tactic.Common

/-!
# A flat 32-bit byte memory

Memory is a function from 32-bit addresses to bytes; address arithmetic wraps
around. Block copy and block fill are given twice: as the byte loops a machine
executes (`copyLoop`, `fillLoop`) and in closed form (`copy`, `fill`), and the
two agree for every length up to the size of the address space.

* `copyLoop_eq`, `fillLoop_eq`: the loops compute the closed forms.
* `copy_dst`: a forward copy whose destination does not begin inside the
  source reproduces the source.
* `copy_out`, `fill_out`, `writeWord_out`: nothing outside the block changes.
-/

namespace ByteMem

abbrev Addr := BitVec 32
abbrev Byte := BitVec 8
abbrev Mem := Addr → Byte

/-- `a` lies in the block of `n` bytes at `base`. -/
def InBlock (base : Addr) (n : ℕ) (a : Addr) : Prop := (a - base).toNat < n

instance (base : Addr) (n : ℕ) (a : Addr) : Decidable (InBlock base n a) :=
  inferInstanceAs (Decidable ((a - base).toNat < n))

/-- Two blocks of `n` bytes have no address in common. -/
def Apart (n : ℕ) (p q : Addr) : Prop := n ≤ (q - p).toNat ∧ n ≤ (p - q).toNat

instance (n : ℕ) (p q : Addr) : Decidable (Apart n p q) :=
  inferInstanceAs (Decidable (_ ∧ _))

theorem Apart.symm {n : ℕ} {p q : Addr} (h : Apart n p q) : Apart n q p := ⟨h.2, h.1⟩

theorem Apart.not_inBlock {n : ℕ} {p q a : Addr} (h : Apart n p q) (ha : InBlock p n a) :
    ¬ InBlock q n a := by
  unfold Apart InBlock at *
  bv_omega

theorem Apart.ne {n : ℕ} {p q : Addr} (hn : 0 < n) (h : Apart n p q) : p ≠ q := by
  rintro rfl
  have h1 := h.1
  simp at h1
  omega

theorem inBlock_add {base : Addr} {n i : ℕ} (hi : i < n) (hn : n ≤ 2 ^ 32) :
    InBlock base n (base + BitVec.ofNat 32 i) := by
  unfold InBlock
  have h : i % 2 ^ 32 = i := Nat.mod_eq_of_lt (by omega)
  rw [show base + BitVec.ofNat 32 i - base = BitVec.ofNat 32 i by bv_omega, BitVec.toNat_ofNat, h]
  exact hi

/-- Of the slots of `size` bytes from `base` on, an address lies in the one with the number
    that the division gives. -/
theorem inBlock_slot {base a : Addr} {size i : ℕ} (h : size * (i + 1) ≤ 2 ^ 32) :
    InBlock (base + BitVec.ofNat 32 (size * i)) size a ↔
      size * i ≤ (a - base).toNat ∧ (a - base).toNat < size * i + size := by
  have hsub : a - (base + BitVec.ofNat 32 (size * i)) =
      (a - base) - BitVec.ofNat 32 (size * i) := by bv_omega
  unfold InBlock
  rw [hsub, BitVec.toNat_sub, BitVec.toNat_ofNat]
  rw [Nat.mul_succ] at h
  have hlt := (a - base).isLt
  omega

/-! ## Block copy -/

/-- The copy loop: `n` times, copy one byte and advance both pointers. -/
def copyLoop : ℕ → Mem → Addr → Addr → Mem
  | 0, mem, _, _ => mem
  | n + 1, mem, dest, src =>
    copyLoop n (Function.update mem dest (mem src)) (dest + 1) (src + 1)

/-- What a forward byte copy leaves in memory. A destination that begins
    `d < n` bytes after the source receives the first `d` source bytes over and
    over; otherwise (`d = 0`, or `d ≥ n`) the remainder does nothing. -/
def copy (mem : Mem) (dest src : Addr) (n : ℕ) : Mem := fun a =>
  if (a - dest).toNat < n then
    mem (src + BitVec.ofNat 32 ((a - dest).toNat % (dest - src).toNat))
  else mem a

theorem copy_zero (mem : Mem) (dest src : Addr) : copy mem dest src 0 = mem := by
  funext a
  simp [copy]

/-- Copying the first byte and then the rest. -/
theorem copy_succ (mem : Mem) (dest src : Addr) (n : ℕ) (hn : n + 1 ≤ 2 ^ 32) :
    copy (Function.update mem dest (mem src)) (dest + 1) (src + 1) n =
      copy mem dest src (n + 1) := by
  funext a
  unfold copy
  rw [show dest + 1 - (src + 1) = dest - src by bv_omega]
  set d := (dest - src).toNat with hd
  by_cases h0 : a = dest
  · -- the first byte: the rest of the loop does not come back to it
    subst h0
    have h1 : ¬ (a - (a + 1)).toNat < n := by
      rw [show a - (a + 1) = -1 by bv_omega]; simp; omega
    rw [if_neg h1, if_pos (by simp)]
    simp
  · have hj : (a - dest).toNat = (a - (dest + 1)).toNat + 1 := by bv_omega
    set j := (a - (dest + 1)).toNat with hjd
    rw [hj]
    by_cases hlt : j < n
    · rw [if_pos hlt, if_pos (by omega)]
      have hjlt : j < 2 ^ 32 := by omega
      by_cases hd0 : d = 0
      · -- source and destination coincide
        have hds : dest = src := by bv_omega
        rw [hd0, Nat.mod_zero, Nat.mod_zero, Function.update_of_ne]
        · congr 1; bv_omega
        · bv_omega
      · have hmod := Nat.mod_lt j (Nat.pos_of_ne_zero hd0)
        have hdlt : d < 2 ^ 32 := hd ▸ (dest - src).isLt
        rcases Nat.lt_or_ge (j % d + 1) d with hc | hc
        · have e : (j + 1) % d = j % d + 1 := by
            rw [Nat.add_mod, Nat.mod_eq_of_lt (a := 1) (by omega), Nat.mod_eq_of_lt hc]
          rw [e]
          generalize j % d = r at *
          rw [Function.update_of_ne]
          · congr 1; bv_omega
          · bv_omega
        · -- one period of the overlap is complete: the byte just written is read back
          have hr : j % d = d - 1 := by omega
          have e : (j + 1) % d = 0 := by
            rw [Nat.add_mod, hr]
            rcases Nat.lt_or_ge 1 d with h1 | h1
            · rw [Nat.mod_eq_of_lt h1, Nat.sub_add_cancel (by omega), Nat.mod_self]
            · have h1' : d = 1 := by omega
              rw [h1', Nat.mod_one]
          rw [e, hr, show src + 1 + BitVec.ofNat 32 (d - 1) = dest by bv_omega]
          simp
    · rw [if_neg hlt, if_neg (by omega), Function.update_of_ne h0]

/-- The copy loop computes `copy`. -/
theorem copyLoop_eq (n : ℕ) (hn : n ≤ 2 ^ 32) (mem : Mem) (dest src : Addr) :
    copyLoop n mem dest src = copy mem dest src n := by
  induction n generalizing mem dest src with
  | zero => rw [copyLoop, copy_zero]
  | succ n ih => rw [copyLoop, ih (by omega), copy_succ _ _ _ _ hn]

theorem copy_out {mem : Mem} {dest src a : Addr} {n : ℕ} (h : ¬ InBlock dest n a) :
    copy mem dest src n a = mem a := if_neg h

/-- The destination does not begin inside the source block, after its first
    byte. -/
def NoForwardOverlap (n : ℕ) (dest src : Addr) : Prop :=
  (dest - src).toNat = 0 ∨ n ≤ (dest - src).toNat

theorem Apart.noForwardOverlap {n : ℕ} {dest src : Addr} (h : Apart n dest src) :
    NoForwardOverlap n dest src := Or.inr h.2

theorem copy_dst {mem : Mem} {dest src : Addr} {n i : ℕ} (h : NoForwardOverlap n dest src)
    (hi : i < n) (hn : n ≤ 2 ^ 32) :
    copy mem dest src n (dest + BitVec.ofNat 32 i) = mem (src + BitVec.ofNat 32 i) := by
  have hoff : (dest + BitVec.ofNat 32 i - dest).toNat = i := by
    rw [show dest + BitVec.ofNat 32 i - dest = BitVec.ofNat 32 i by bv_omega, BitVec.toNat_ofNat]
    exact Nat.mod_eq_of_lt (by omega)
  unfold copy
  rw [hoff, if_pos hi]
  rcases h with h | h
  · rw [h, Nat.mod_zero]
  · rw [Nat.mod_eq_of_lt (by omega)]

/-! ## Block fill -/

/-- The fill loop: `n` times, store the byte and advance the pointer. -/
def fillLoop : ℕ → Mem → Addr → Byte → Mem
  | 0, mem, _, _ => mem
  | n + 1, mem, dest, c => fillLoop n (Function.update mem dest c) (dest + 1) c

/-- The `n` bytes at `dest` set to `c`. -/
def fill (mem : Mem) (dest : Addr) (c : Byte) (n : ℕ) : Mem := fun a =>
  if (a - dest).toNat < n then c else mem a

theorem fillLoop_eq (n : ℕ) (hn : n ≤ 2 ^ 32) (mem : Mem) (dest : Addr) (c : Byte) :
    fillLoop n mem dest c = fill mem dest c n := by
  induction n generalizing mem dest with
  | zero => funext a; simp [fillLoop, fill]
  | succ n ih =>
    rw [fillLoop, ih (by omega)]
    funext a
    unfold fill
    by_cases h0 : a = dest
    · subst h0; simp
    · have hj : (a - dest).toNat = (a - (dest + 1)).toNat + 1 := by bv_omega
      rw [hj, Function.update_of_ne h0]
      simp only [Nat.add_lt_add_iff_right]

theorem fill_out {mem : Mem} {dest a : Addr} {c : Byte} {n : ℕ} (h : ¬ InBlock dest n a) :
    fill mem dest c n a = mem a := if_neg h

/-! ## Little-endian words -/

/-- The 32-bit word at `a`. -/
def readWord (mem : Mem) (a : Addr) : BitVec 32 :=
  mem (a + 3) ++ mem (a + 2) ++ mem (a + 1) ++ mem a

/-- Store a 32-bit word at `a`. -/
def writeWord (mem : Mem) (a : Addr) (v : BitVec 32) : Mem := fun b =>
  if b = a then v.extractLsb' 0 8
  else if b = a + 1 then v.extractLsb' 8 8
  else if b = a + 2 then v.extractLsb' 16 8
  else if b = a + 3 then v.extractLsb' 24 8
  else mem b

theorem writeWord_out {mem : Mem} {a b : Addr} {v : BitVec 32} (h : ¬ InBlock a 4 b) :
    writeWord mem a v b = mem b := by
  unfold InBlock at h
  unfold writeWord
  rw [if_neg (by bv_omega), if_neg (by bv_omega), if_neg (by bv_omega), if_neg (by bv_omega)]

theorem readWord_writeWord (mem : Mem) (a : Addr) (v : BitVec 32) :
    readWord (writeWord mem a v) a = v := by
  have h1 : a + 1 ≠ a := by bv_omega
  have h2 : a + 2 ≠ a ∧ a + 2 ≠ a + 1 := by constructor <;> bv_omega
  have h3 : a + 3 ≠ a ∧ a + 3 ≠ a + 1 ∧ a + 3 ≠ a + 2 := by refine ⟨?_, ?_, ?_⟩ <;> bv_omega
  simp only [readWord, writeWord, h1, h2.1, h2.2, h3.1, h3.2.1, h3.2.2, if_true, if_false]
  apply BitVec.eq_of_getLsbD_eq
  intro i hi
  simp only [BitVec.getLsbD_append, BitVec.getLsbD_extractLsb']
  split_ifs with h8 h16 h24
  · simp [h8]
  · rw [show 8 + (i - 8) = i by omega]; simp [show i - 8 < 8 by omega]
  · rw [show 16 + (i - 8 - 8) = i by omega]; simp [show i - 8 - 8 < 8 by omega]
  · rw [show 24 + (i - 8 - 8 - 8) = i by omega]; simp [show i - 8 - 8 - 8 < 8 by omega]

/-- Reading a word depends on its four bytes only. -/
theorem readWord_congr {mem mem' : Mem} {a a' : Addr}
    (h : ∀ i < 4, mem (a + BitVec.ofNat 32 i) = mem' (a' + BitVec.ofNat 32 i)) :
    readWord mem a = readWord mem' a' := by
  have h0 := h 0 (by omega)
  have h1 := h 1 (by omega)
  have h2 := h 2 (by omega)
  have h3 := h 3 (by omega)
  rw [BitVec.add_zero, BitVec.add_zero] at h0
  unfold readWord
  rw [h0]
  congr 1
  exact congrArg₂ _ (congrArg₂ _ h3 h2) h1

end ByteMem
