import SimpleOs.Io.Stdio

/-!
# Where output lands

The text video memory has 32 KB, from `0xb8000` on, and no function of `io/k_stdio.c`
compares an address with its end. This file says which addresses the output functions write,
when all of them are in the video memory, and that output which leaves it writes the byte
behind it.
-/

namespace SimpleOs

open ByteMem

/-- The text video memory, `0xb8000..0xbffff`. -/
def InTextMemory (a : Addr) : Prop := 0xb8000 ≤ a.toNat ∧ a.toNat < 0xc0000

instance (a : Addr) : Decidable (InTextMemory a) := inferInstanceAs (Decidable (_ ∧ _))

/-- The address `n` bytes behind the beginning of the video memory. -/
def videoAddr (n : ℕ) : Addr := 0xb8000 + BitVec.ofNat 32 n

theorem videoAddr_toNat {n : ℕ} (hn : n < 2 ^ 31) : (videoAddr n).toNat = 0xb8000 + n := by
  have hbase : (0xb8000 : Addr).toNat = 0xb8000 := rfl
  unfold videoAddr
  rw [BitVec.toNat_add, BitVec.toNat_ofNat, hbase]
  omega

theorem inText_videoAddr {n : ℕ} (hn : n < 0x8000) : InTextMemory (videoAddr n) := by
  have haddr := videoAddr_toNat (show n < 2 ^ 31 by omega)
  unfold InTextMemory
  omega

/-- The byte behind the video memory. -/
theorem videoAddr_end : videoAddr 0x8000 = 0xc0000 := by decide

theorem videoAddr_add (m n : ℕ) : videoAddr m + BitVec.ofNat 32 n = videoAddr (m + n) := by
  unfold videoAddr
  rw [BitVec.add_assoc, BitVec.ofNat_add]

theorem lineAddr_eq (line : ℕ) : lineAddr line = videoAddr (160 * line) := rfl

/-- Output changes only the bytes that it writes. -/
theorem Output.write_out {out : Output} {a : Addr} (h : ∀ w ∈ out, w.1 ≠ a) (mem : Mem) :
    out.write mem a = mem a := by
  unfold Output.write
  induction out generalizing mem with
  | nil => rfl
  | cons w out ih =>
    obtain ⟨hw, hout⟩ := List.forall_mem_cons.mp h
    rw [List.foldl_cons, ih hout, Function.update_of_ne hw.symm]

/-- A byte that is always written with the same value has it in the end. -/
theorem Output.write_of_mem {out : Output} {a : Addr} {c : Byte} (hmem : ∃ w ∈ out, w.1 = a)
    (hsame : ∀ w ∈ out, w.1 = a → w.2 = c) (mem : Mem) : out.write mem a = c := by
  unfold Output.write
  induction out generalizing mem with
  | nil =>
    obtain ⟨w, hw, _⟩ := hmem
    cases hw
  | cons w out ih =>
    obtain ⟨hw, hout⟩ := List.forall_mem_cons.mp hsame
    rw [List.foldl_cons]
    by_cases hlater : ∃ v ∈ out, v.1 = a
    · exact ih hlater hout _
    · have hfirst : w.1 = a := by
        obtain ⟨v, hv, hva⟩ := hmem
        rcases List.mem_cons.mp hv with rfl | hv
        · exact hva
        · exact absurd ⟨v, hv, hva⟩ hlater
      have hrest := @Output.write_out out a (fun v hv hva => hlater ⟨v, hv, hva⟩)
        (Function.update mem w.1 w.2)
      unfold Output.write at hrest
      rw [hrest, ← hfirst, Function.update_self]
      exact hw hfirst

/-! ## Strings and numbers -/

theorem mem_s32PrintStr {s : List Byte} {n : ℕ} {w : Addr × Byte}
    (hw : w ∈ s32PrintStr s (videoAddr n)) : ∃ i < s.length, w.1 = videoAddr (n + 2 * i) := by
  induction s generalizing n with
  | nil => cases hw
  | cons c s ih =>
    have hnext : videoAddr n + 2 = videoAddr (n + 2) := videoAddr_add n 2
    rw [s32PrintStr, hnext] at hw
    rcases List.mem_append.mp hw with hw | hw
    · refine ⟨0, Nat.succ_pos _, ?_⟩
      rw [List.mem_singleton.mp hw]
      rfl
    · obtain ⟨i, hi, heq⟩ := ih hw
      refine ⟨i + 1, Nat.succ_lt_succ hi, ?_⟩
      rw [heq]
      congr 1
      omega

theorem s32PrintStr_writes {s : List Byte} {n i : ℕ} (hi : i < s.length) :
    ∃ w ∈ s32PrintStr s (videoAddr n), w.1 = videoAddr (n + 2 * i) := by
  induction s generalizing n i with
  | nil => exact absurd hi (Nat.not_lt_zero i)
  | cons c s ih =>
    have hnext : videoAddr n + 2 = videoAddr (n + 2) := videoAddr_add n 2
    rw [s32PrintStr, hnext]
    cases i with
    | zero => exact ⟨(videoAddr n, c), List.mem_append_left _ (List.mem_singleton_self _), rfl⟩
    | succ i =>
      obtain ⟨w, hw, heq⟩ := ih (n := n + 2) (Nat.lt_of_succ_lt_succ hi)
      refine ⟨w, List.mem_append_right _ hw, ?_⟩
      rw [heq]
      congr 1
      omega

/-- A text lies below an address if all its characters do. -/
theorem s32PrintStr_below_iff {s : List Byte} {n bound : ℕ} (hn : n + 2 * s.length < 2 ^ 31) :
    (∀ w ∈ s32PrintStr s (videoAddr n), w.1.toNat < bound) ↔
      ∀ i < s.length, 0xb8000 + (n + 2 * i) < bound := by
  constructor
  · intro hall i hi
    obtain ⟨w, hw, heq⟩ := s32PrintStr_writes (n := n) hi
    have hlow := hall w hw
    rwa [heq, videoAddr_toNat (by omega)] at hlow
  · intro hall w hw
    obtain ⟨i, hi, heq⟩ := mem_s32PrintStr hw
    rw [heq, videoAddr_toNat (by omega)]
    exact hall i hi

theorem s32PrintStr_inText {s : List Byte} {n : ℕ} (h : n + 2 * s.length ≤ 0x8001) :
    ∀ w ∈ s32PrintStr s (videoAddr n), InTextMemory w.1 := by
  intro w hw
  obtain ⟨i, hi, heq⟩ := mem_s32PrintStr hw
  rw [heq]
  exact inText_videoAddr (by omega)

/-- A string that is too long writes the byte behind the video memory. -/
theorem s32PrintStr_stray {s : List Byte} {n : ℕ} (heven : n % 2 = 0) (hn : n ≤ 0x8000)
    (h : 0x8001 < n + 2 * s.length) : ∃ w ∈ s32PrintStr s (videoAddr n), w.1 = 0xc0000 := by
  obtain ⟨w, hw, heq⟩ := s32PrintStr_writes (n := n) (by omega : (0x8000 - n) / 2 < s.length)
  refine ⟨w, hw, ?_⟩
  rw [heq, ← videoAddr_end]
  congr 1
  omega

theorem itoaLoop_length {radix fuel n d : ℕ} (hn : n < radix ^ d) :
    (itoaLoop radix fuel n).length ≤ d := by
  induction fuel generalizing n d with
  | zero => exact Nat.zero_le d
  | succ fuel ih =>
    rw [itoaLoop]
    by_cases hzero : n = 0
    · rw [if_neg (not_not.mpr hzero)]
      exact Nat.zero_le d
    · rw [if_pos hzero]
      cases d with
      | zero =>
        rw [pow_zero] at hn
        omega
      | succ d =>
        have hdiv : n / radix < radix ^ d := by
          apply Nat.div_lt_of_lt_mul
          rw [← pow_succ']
          exact hn
        rw [List.length_cons]
        exact Nat.succ_le_succ (ih hdiv)

/-- A hexadecimal number has at most eight digits. -/
theorem s32Itoa_length (n : BitVec 32) : (s32Itoa n 16).length ≤ 8 := by
  unfold s32Itoa
  by_cases hzero : n = 0
  · rw [if_pos hzero]
    decide
  · rw [if_neg hzero, List.length_reverse]
    exact itoaLoop_length n.isLt

theorem s32PrintInt_inText {i : BitVec 32} {n : ℕ} (h : n + 16 ≤ 0x8001) :
    ∀ w ∈ s32PrintInt i (videoAddr n) 16, InTextMemory w.1 := by
  have hlen := s32Itoa_length i
  apply s32PrintStr_inText
  rw [List.length_map]
  omega

/-! ## Lines and dumps -/

theorem mem_clearLine {l : BitVec 8} {w : Addr × Byte} (hw : w ∈ clearLine l) :
    ∃ i < 160, w.1 = videoAddr (160 * l.toNat + i) := by
  obtain ⟨x, hx, hw⟩ := List.mem_flatMap.mp hw
  have hlt := List.mem_range.mp hx
  simp only [List.mem_cons, List.not_mem_nil, or_false] at hw
  rcases hw with rfl | rfl
  · exact ⟨2 * x, by omega, videoAddr_add _ _⟩
  · exact ⟨2 * x + 1, by omega, videoAddr_add _ _⟩

theorem clearLine_inText {l : BitVec 8} (h : l.toNat ≤ 203) : ∀ w ∈ clearLine l, InTextMemory w.1 := by
  intro w hw
  obtain ⟨i, hi, heq⟩ := mem_clearLine hw
  rw [heq]
  exact inText_videoAddr (by omega)

/-- The line 204 is not in the video memory as a whole. -/
theorem clearLine_stray : ∃ w ∈ clearLine 204, w.1 = 0xc0000 := by
  refine ⟨(lineAddr 204 + BitVec.ofNat 32 (2 * 64), 0x20), ?_, by decide⟩
  exact List.mem_flatMap.mpr ⟨64, by decide, List.mem_cons_self ..⟩

theorem mem_pDump {mem : Mem} {buff : Addr} {len : BitVec 32} {w : Addr × Byte}
    (hw : w ∈ pDump mem buff len) :
    ∃ i j : ℕ, (i : ℤ) < len.toInt ∧ j < 3 ∧ w.1 = videoAddr (6 * i + 2 * j) := by
  obtain ⟨i, hi, hw⟩ := List.mem_flatMap.mp hw
  have hlt := List.mem_range.mp hi
  have hstart : lineAddr 0 + BitVec.ofNat 32 (6 * i) = videoAddr (6 * i) := by
    rw [lineAddr_eq, videoAddr_add, Nat.mul_zero, Nat.zero_add]
  dsimp only at hw
  rw [hstart] at hw
  obtain ⟨j, hj, heq⟩ := mem_s32PrintStr hw
  exact ⟨i, j, by omega, hj, heq⟩

theorem pDump_inText {mem : Mem} {buff : Addr} {len : BitVec 32} (h : len.toInt ≤ 5461) :
    ∀ w ∈ pDump mem buff len, InTextMemory w.1 := by
  intro w hw
  obtain ⟨i, j, hi, hj, heq⟩ := mem_pDump hw
  rw [heq]
  exact inText_videoAddr (by omega)

/-- A dump of more bytes writes the byte behind the video memory. -/
theorem pDump_stray (mem : Mem) (buff : Addr) {len : BitVec 32} (h : 5461 < len.toInt) :
    ∃ w ∈ pDump mem buff len, w.1 = 0xc0000 := by
  set c := h2c (mem (buff + BitVec.ofNat 32 5461)) with hc
  have hmem : (videoAddr 0x8000, c.2) ∈
      s32PrintStr [c.1, c.2, 0x20] (lineAddr 0 + BitVec.ofNat 32 (6 * 5461)) := by
    have haddr : lineAddr 0 + BitVec.ofNat 32 (6 * 5461) + 2 = videoAddr 0x8000 := by decide
    refine List.mem_append_right _ (List.mem_append_left _ ?_)
    rw [haddr]
    exact List.mem_singleton_self _
  refine ⟨_, List.mem_flatMap.mpr ⟨5461, List.mem_range.mpr (by omega), hmem⟩, videoAddr_end⟩

end SimpleOs
