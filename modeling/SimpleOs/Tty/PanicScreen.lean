import Mathlib.Data.List.Basic
import SimpleOs.Io.Screen
import SimpleOs.Lib.CString

/-!
# The panic screen

The loop of `sys_printk` (syscall.c:157-177) that fills the text video memory with copies of a
panic or assertion message, before it halts. Each copy is padded to a multiple of 1280 bytes,
which is no divisor of the 32 KB. `sysPrintk` says when the loop is entered.

* `panicFill_ok_iff`: the loop ends and reads nothing behind the message, but it stays inside
  the video memory only if the last copy does not fit.
-/

namespace SimpleOs

open ByteMem

/-! ## The code -/

/-- include/vga.h:24-28. -/
abbrev V_MEM_BASE : Addr := 0xb8000
abbrev V_MEM_SIZE : BitVec 32 := 0x8000
abbrev SCR_WIDTH : BitVec 32 := 80
abbrev RED_CHAR : Byte := 9
abbrev GRAY_CHAR : Byte := 7

/-- The pointers `v` and `q`, the bytes of the message that have been read, where its
    characters have been copied from where, and what has been written. -/
structure Fill where
  v : Addr
  q : Addr
  read : List Addr
  copied : List (Addr × Addr)
  written : Output

/-- `*v++ = *q++; *v++ = RED_CHAR;` and the reading of `*q` (syscall.c:164-166). -/
def Fill.copyChar (mem : Mem) (f : Fill) : Fill where
  v := f.v + 2
  q := f.q + 1
  read := f.read ++ [f.q, f.q + 1]
  copied := f.copied ++ [(f.v, f.q)]
  written := f.written ++ [(f.v, mem f.q), (f.v + 1, RED_CHAR)]

/-- `++v; *v++ = GRAY_CHAR;` (syscall.c:170-171). -/
def Fill.padChar (f : Fill) : Fill :=
  { f with v := f.v + 2, written := f.written ++ [(f.v + 1, GRAY_CHAR)] }

/-- `while(((int)v - V_MEM_BASE) % (SCR_WIDTH * 16))` (syscall.c:168-172), for at most `fuel`
    tests of its condition. -/
def padLoop : ℕ → Fill → Option Fill
  | 0, _ => none
  | fuel + 1, f =>
    if (f.v - V_MEM_BASE).srem (SCR_WIDTH * 16) ≠ 0 then padLoop fuel f.padChar else some f

/-- `while(v <(char *)(V_MEM_BASE + V_MEM_SIZE))` (syscall.c:162-176). -/
def fillLoop (mem : Mem) (p : Addr) : ℕ → Fill → Option Fill
  | 0, _ => none
  | fuel + 1, f =>
    if f.v < V_MEM_BASE + V_MEM_SIZE then
      let f := f.copyChar mem
      if mem f.q = 0 then do
        let f ← padLoop fuel f
        fillLoop mem p fuel { f with q := p + 1 }
      else fillLoop mem p fuel f
    else some f

/-- The loop for the message whose magic byte is at `p`. The message is read from the memory
    of the start: it does not lie in the text video memory, which the loop writes over. -/
def panicFill (mem : Mem) (p : Addr) (fuel : ℕ) : Option Fill :=
  fillLoop mem p fuel ⟨V_MEM_BASE, p + 1, [], [], []⟩

/-! ## More fuel -/

theorem padLoop_mono {fuel : ℕ} {f f' : Fill} (h : padLoop fuel f = some f') {more : ℕ}
    (hmore : fuel ≤ more) : padLoop more f = some f' := by
  induction fuel generalizing f more with
  | zero => nomatch h
  | succ fuel ih =>
    obtain ⟨more, rfl⟩ := Nat.exists_eq_add_of_le' (show 1 ≤ more by omega)
    rw [padLoop] at h ⊢
    split_ifs at h ⊢
    · exact ih h (by omega)
    · exact h

theorem fillLoop_mono {mem : Mem} {p : Addr} {fuel : ℕ} {f f' : Fill}
    (h : fillLoop mem p fuel f = some f') {more : ℕ} (hmore : fuel ≤ more) :
    fillLoop mem p more f = some f' := by
  induction fuel generalizing f more with
  | zero => nomatch h
  | succ fuel ih =>
    obtain ⟨more, rfl⟩ := Nat.exists_eq_add_of_le' (show 1 ≤ more by omega)
    rw [fillLoop] at h ⊢
    dsimp only at h ⊢
    split_ifs at h ⊢
    · obtain ⟨g, hpad, hrest⟩ := Option.bind_eq_some_iff.mp h
      rw [padLoop_mono hpad (by omega)]
      exact ih hrest (by omega)
    · exact ih h (by omega)
    · exact h

/-! ## What has been written -/

/-- The bytes written are among the first `n` of the video memory, and the last of these has
    been written. -/
structure Fill.Upto (f : Fill) (n : ℕ) : Prop where
  v : f.v = videoAddr n
  bounded : ∀ w ∈ f.written, ∃ i < n, w.1 = videoAddr i
  last : 0 < n → ∃ w ∈ f.written, w.1 = videoAddr (n - 1)

/-- Two more bytes, of which the second is always written. -/
theorem Fill.Upto.extend {f f' : Fill} {n : ℕ} {out : Output} (h : f.Upto n)
    (hv : f'.v = f.v + 2) (hwritten : f'.written = f.written ++ out)
    (hout : ∀ w ∈ out, w.1 = f.v ∨ w.1 = f.v + 1) (hlast : ∃ w ∈ out, w.1 = f.v + 1) :
    f'.Upto (n + 2) := by
  have hfirst := h.v
  have hsecond : f.v + 1 = videoAddr (n + 1) := by
    rw [h.v]
    exact videoAddr_add n 1
  refine ⟨?_, fun w hw => ?_, fun _ => ?_⟩
  · rw [hv, h.v]
    exact videoAddr_add n 2
  · rw [hwritten] at hw
    rcases List.mem_append.mp hw with hold | hnew
    · obtain ⟨i, hi, haddr⟩ := h.bounded w hold
      exact ⟨i, by omega, haddr⟩
    · rcases hout w hnew with haddr | haddr
      · exact ⟨n, by omega, haddr.trans hfirst⟩
      · exact ⟨n + 1, by omega, haddr.trans hsecond⟩
  · obtain ⟨w, hw, haddr⟩ := hlast
    rw [hwritten]
    exact ⟨w, List.mem_append_right _ hw, haddr.trans hsecond⟩

theorem Fill.Upto.copyChar {f : Fill} {n : ℕ} (h : f.Upto n) (mem : Mem) :
    (f.copyChar mem).Upto (n + 2) := by
  refine Fill.Upto.extend h rfl rfl ?_ ?_
  · simp
  · simp

theorem Fill.Upto.padChar {f : Fill} {n : ℕ} (h : f.Upto n) : f.padChar.Upto (n + 2) := by
  refine Fill.Upto.extend h rfl rfl ?_ ?_
  · simp
  · simp

/-! ## The padding -/

/-- The condition of the padding loop. -/
theorem srem_block {v : Addr} {n : ℕ} (hv : v = videoAddr n) (hn : n < 2 ^ 31) :
    (v - V_MEM_BASE).srem (SCR_WIDTH * 16) ≠ 0 ↔ n % 1280 ≠ 0 := by
  have hoff : v - V_MEM_BASE = BitVec.ofNat 32 n := by
    rw [hv]
    unfold videoAddr V_MEM_BASE
    bv_omega
  have hmsb : (BitVec.ofNat 32 n).msb = false := by
    rw [BitVec.msb_eq_false_iff_two_mul_lt, BitVec.toNat_ofNat]
    omega
  have hrem : (BitVec.ofNat 32 n).srem (SCR_WIDTH * 16) = BitVec.ofNat 32 n % 1280 := by
    rw [BitVec.srem_eq, hmsb]
    rfl
  have hzero : BitVec.ofNat 32 n % 1280 = 0 ↔ n % 1280 = 0 := by
    rw [← BitVec.toNat_inj, BitVec.toNat_umod, BitVec.toNat_ofNat]
    show n % 2 ^ 32 % 1280 = 0 ↔ n % 1280 = 0
    rw [Nat.mod_eq_of_lt (by omega : n < 2 ^ 32)]
  rw [hoff, hrem, Ne, hzero]

/-- From an even offset the padding reaches the next block. -/
theorem padLoop_spec {m k fuel n : ℕ} {f : Fill} (hn : n + 2 * k = 1280 * m) (hk : k < 640)
    (hm : 1280 * m < 2 ^ 31) (hfuel : k < fuel) (h : f.Upto n) :
    ∃ f', padLoop fuel f = some f' ∧ f'.Upto (1280 * m) ∧ f'.read = f.read ∧
      f'.copied = f.copied := by
  induction k generalizing f n fuel with
  | zero =>
    obtain ⟨fuel, rfl⟩ := Nat.exists_eq_add_of_le' (show 1 ≤ fuel by omega)
    obtain rfl : n = 1280 * m := by omega
    have hstop : ¬ (f.v - V_MEM_BASE).srem (SCR_WIDTH * 16) ≠ 0 := by
      rw [srem_block h.v hm]
      omega
    exact ⟨f, by rw [padLoop, if_neg hstop], h, rfl, rfl⟩
  | succ k ih =>
    obtain ⟨fuel, rfl⟩ := Nat.exists_eq_add_of_le' (show 1 ≤ fuel by omega)
    have hgo : (f.v - V_MEM_BASE).srem (SCR_WIDTH * 16) ≠ 0 := by
      rw [srem_block h.v (by omega)]
      omega
    rw [padLoop, if_pos hgo]
    refine ih ?_ ?_ ?_ h.padChar
    · omega
    · omega
    · omega

/-! ## The copies -/

/-- The bytes a copy of `len` characters takes with its padding. -/
def copySize (len : ℕ) : ℕ := 1280 * ((len + 639) / 640)

theorem copySize_bounds (len : ℕ) : 2 * len ≤ copySize len ∧ copySize len < 2 * len + 1280 := by
  unfold copySize
  omega

/-- Every copy begins at a multiple of 1280. -/
theorem copySize_mul (len k : ℕ) :
    copySize len * k = 1280 * ((len + 639) / 640 * k) := Nat.mul_assoc ..

/-- Behind a whole copy the padding reaches the next one. -/
theorem padLoop_copy {len k fuel : ℕ} {f : Fill} (h : f.Upto (copySize len * k + 2 * len))
    (hroom : copySize len * k + 2 * len ≤ 0x8000) (hfuel : 640 ≤ fuel) :
    ∃ f', padLoop fuel f = some f' ∧ f'.Upto (copySize len * (k + 1)) ∧ f'.read = f.read ∧
      f'.copied = f.copied := by
  have hnext : copySize len * (k + 1) = copySize len * k + copySize len := Nat.mul_succ ..
  have hpad : 2 * len + 2 * (copySize len / 2 - len) = copySize len := by
    unfold copySize
    omega
  have hlt := (copySize_bounds len).2
  have hend : copySize len * k + 2 * len + 2 * (copySize len / 2 - len) =
      copySize len * (k + 1) := by
    omega
  rw [copySize_mul len (k + 1)] at hend ⊢
  refine padLoop_spec hend ?_ ?_ ?_ h
  · omega
  · rw [← copySize_mul]
    omega
  · omega

/-- What has been read belongs to the message of `len` characters behind `p`, and each
    character stands where its copy has it. -/
structure Fill.Copies (p : Addr) (len : ℕ) (f : Fill) : Prop where
  read : ∀ a ∈ f.read, ∃ j ≤ len, a = p + 1 + BitVec.ofNat 32 j
  copied : ∀ c ∈ f.copied, ∃ k j, j < len ∧ copySize len * k + 2 * j < 0x8000 ∧
    c.1 = videoAddr (copySize len * k + 2 * j) ∧ c.2 = p + 1 + BitVec.ofNat 32 j

/-- Before character `i` of copy `k`. -/
structure Filling (p : Addr) (len k i : ℕ) (f : Fill) : Prop where
  upto : f.Upto (copySize len * k + 2 * i)
  q : f.q = p + 1 + BitVec.ofNat 32 i
  char : i < len
  /-- Within a copy the loop has not run over the end of the video memory. -/
  inside : 0 < i → copySize len * k + 2 * i ≤ 0x8000
  /-- The copy before is complete. -/
  before : i = 0 → 0 < k → copySize len * (k - 1) + 2 * len ≤ 0x8000
  copies : f.Copies p len

section Loop

variable {mem : Mem} {p : Addr} {str : List Byte}

/-- The loop is never more than a block behind the video memory. -/
theorem Filling.le_end {len k i : ℕ} {f : Fill} (h : Filling p len k i f) :
    copySize len * k + 2 * i < 0x8000 + 1280 := by
  by_cases hi : i = 0
  · cases k with
    | zero =>
      rw [Nat.mul_zero]
      omega
    | succ k =>
      have hnext : copySize len * (k + 1) = copySize len * k + copySize len := Nat.mul_succ ..
      have hlt := (copySize_bounds len).2
      have hbefore := h.before hi (Nat.succ_pos k)
      rw [Nat.add_sub_cancel] at hbefore
      omega
  · have hinside := h.inside (Nat.pos_of_ne_zero hi)
    omega

theorem Filling.guard {len k i : ℕ} {f : Fill} (h : Filling p len k i f) :
    f.v < V_MEM_BASE + V_MEM_SIZE ↔ copySize len * k + 2 * i < 0x8000 := by
  have hend := h.le_end
  rw [h.upto.v, BitVec.lt_def, videoAddr_toNat (by omega)]
  show 0xb8000 + (copySize len * k + 2 * i) < 0xc0000 ↔ copySize len * k + 2 * i < 0x8000
  omega

/-- The next character. -/
theorem Filling.copyChar {len k i : ℕ} {f : Fill} (h : Filling p len k i f) (mem : Mem)
    (hroom : copySize len * k + 2 * i < 0x8000) :
    (f.copyChar mem).Upto (copySize len * k + 2 * (i + 1)) ∧
      (f.copyChar mem).q = p + 1 + BitVec.ofNat 32 (i + 1) ∧
      copySize len * k + 2 * (i + 1) ≤ 0x8000 ∧ (f.copyChar mem).Copies p len := by
  have hchar := h.char
  have hq : f.q + 1 = p + 1 + BitVec.ofNat 32 (i + 1) := by
    rw [h.q, BitVec.add_assoc, BitVec.ofNat_add]
    rfl
  refine ⟨h.upto.copyChar mem, hq, ?_, fun a ha => ?_, fun c hc => ?_⟩
  · rw [copySize_mul] at hroom ⊢
    omega
  · rcases List.mem_append.mp ha with hold | hnew
    · exact h.copies.read a hold
    · rcases List.mem_pair.mp hnew with rfl | rfl
      · exact ⟨i, by omega, h.q⟩
      · exact ⟨i + 1, by omega, hq⟩
  · rcases List.mem_append.mp hc with hold | hnew
    · exact h.copies.copied c hold
    · obtain rfl := List.mem_singleton.mp hnew
      exact ⟨k, i, hchar, hroom, h.upto.v, h.q⟩

/-- A round of the loop copies a character, and then begins the next copy if it was the last
    one of the message. -/
theorem fillLoop_round (hstr : IsStr mem (p + 1) str) {k i fuel : ℕ} {f : Fill}
    (h : Filling p str.length k i f) (hroom : copySize str.length * k + 2 * i < 0x8000)
    (hfuel : 640 ≤ fuel) :
    ∃ f' k' i', fillLoop mem p (fuel + 1) f = fillLoop mem p fuel f' ∧
      Filling p str.length k' i' f' ∧
      copySize str.length * k + 2 * i + 2 ≤ copySize str.length * k' + 2 * i' := by
  have hchar := h.char
  obtain ⟨hupto, hq, hinside, hcopies⟩ := h.copyChar mem hroom
  rw [fillLoop, if_pos (h.guard.mpr hroom)]
  dsimp only
  by_cases hlast : i + 1 = str.length
  · have hnul : mem (f.copyChar mem).q = 0 := by
      rw [hq, hlast]
      exact hstr.nul
    rw [hlast] at hupto hinside
    obtain ⟨f', hpad, hupto', hread, hcopied⟩ := padLoop_copy hupto hinside hfuel
    rw [if_pos hnul, hpad]
    refine ⟨{ f' with q := p + 1 }, k + 1, 0, rfl, ⟨?_, ?_, ?_, ?_, ?_, ?_⟩, ?_⟩
    · exact ⟨hupto'.v, hupto'.bounded, hupto'.last⟩
    · show p + 1 = p + 1 + BitVec.ofNat 32 0
      simp
    · omega
    · omega
    · exact fun _ _ => hinside
    · exact ⟨hread ▸ hcopies.read, hcopied ▸ hcopies.copied⟩
    · have hnext : copySize str.length * (k + 1) =
          copySize str.length * k + copySize str.length := Nat.mul_succ ..
      have hle := (copySize_bounds str.length).1
      omega
  · have hmore : mem (f.copyChar mem).q ≠ 0 := by
      rw [hq]
      exact hstr.ne_zero (by omega)
    rw [if_neg hmore]
    exact ⟨f.copyChar mem, k, i + 1, rfl,
      ⟨hupto, hq, by omega, fun _ => hinside, fun hzero => by omega, hcopies⟩, by omega⟩

/-- With enough fuel the loop ends, at the end of the video memory or behind it. -/
theorem fillLoop_ends (hstr : IsStr mem (p + 1) str) {rounds k i fuel : ℕ} {f : Fill}
    (h : Filling p str.length k i f)
    (hrounds : 0x8000 ≤ copySize str.length * k + 2 * i + 2 * rounds)
    (hfuel : rounds + 641 ≤ fuel) :
    ∃ f' k' i', fillLoop mem p fuel f = some f' ∧ Filling p str.length k' i' f' ∧
      0x8000 ≤ copySize str.length * k' + 2 * i' := by
  induction rounds generalizing k i fuel f with
  | zero =>
    obtain ⟨fuel, rfl⟩ := Nat.exists_eq_add_of_le' (show 1 ≤ fuel by omega)
    refine ⟨f, k, i, ?_, h, by omega⟩
    rw [fillLoop, if_neg]
    rw [h.guard]
    omega
  | succ rounds ih =>
    obtain ⟨fuel, rfl⟩ := Nat.exists_eq_add_of_le' (show 1 ≤ fuel by omega)
    by_cases hroom : copySize str.length * k + 2 * i < 0x8000
    · obtain ⟨f', k', i', hstep, h', hgrow⟩ :=
        fillLoop_round hstr h hroom (show 640 ≤ fuel by omega)
      rw [hstep]
      refine ih h' ?_ ?_
      · omega
      · omega
    · refine ⟨f, k, i, ?_, h, by omega⟩
      rw [fillLoop, if_neg]
      rw [h.guard]
      exact hroom

theorem filling_start (hne : str ≠ []) :
    Filling p str.length 0 0 ⟨V_MEM_BASE, p + 1, [], [], []⟩ := by
  refine ⟨⟨?_, ?_, ?_⟩, ?_, ?_, ?_, ?_, ⟨?_, ?_⟩⟩
  · rw [Nat.mul_zero]
    rfl
  · simp
  · rw [Nat.mul_zero]
    omega
  · simp
  · exact List.length_pos_iff.mpr hne
  · omega
  · omega
  · simp
  · simp

end Loop

/-! ## Where the loop ends -/

/-- The last copy of `len` characters that begins in the video memory runs over its end. -/
def LastCopyCut (len : ℕ) : Prop := 0x8000 < copySize len * (0x7fff / copySize len) + 2 * len

instance (len : ℕ) : Decidable (LastCopyCut len) := inferInstanceAs (Decidable (_ < _))

/-- It ends at the end of the video memory exactly if the last copy is cut. -/
theorem Filling.end_iff {p : Addr} {len k i : ℕ} {f : Fill} (h : Filling p len k i f)
    (hend : 0x8000 ≤ copySize len * k + 2 * i) :
    copySize len * k + 2 * i = 0x8000 ↔ LastCopyCut len := by
  have hchar := h.char
  have hbounds := (copySize_bounds len).1
  unfold LastCopyCut
  by_cases hi : i = 0
  · -- copy `k - 1` was the last one, and complete
    cases k with
    | zero => omega
    | succ k =>
      have hbefore := h.before hi (Nat.succ_pos k)
      rw [Nat.add_sub_cancel] at hbefore
      have hlast : 0x7fff / copySize len = k := by
        apply Nat.div_eq_of_lt_le
        · rw [Nat.mul_comm]
          omega
        · rw [Nat.mul_comm]
          omega
      have hmul := copySize_mul len (k + 1)
      rw [hlast, hi]
      omega
  · have hinside := h.inside (Nat.pos_of_ne_zero hi)
    have hnext : copySize len * (k + 1) = copySize len * k + copySize len := Nat.mul_succ ..
    have hlast : 0x7fff / copySize len = k := by
      apply Nat.div_eq_of_lt_le
      · rw [Nat.mul_comm]
        omega
      · rw [Nat.mul_comm, hnext]
        omega
    rw [hlast]
    omega

/-- The bytes written lie in the video memory if the loop has ended at its end. -/
theorem Fill.Upto.inText_iff {f : Fill} {n : ℕ} (h : f.Upto n) (hn : 0x8000 ≤ n)
    (hlt : n < 2 ^ 31) : (∀ w ∈ f.written, InTextMemory w.1) ↔ n = 0x8000 := by
  constructor
  · intro hall
    obtain ⟨w, hw, haddr⟩ := h.last (by omega)
    obtain ⟨_, hin⟩ := hall w hw
    rw [haddr, videoAddr_toNat (by omega)] at hin
    omega
  · rintro rfl w hw
    obtain ⟨i, hi, haddr⟩ := h.bounded w hw
    rw [haddr]
    exact inText_videoAddr hi

/-- What is asked of the loop: nothing but the message of `len` characters behind `p` is read,
    and each copy begins at a multiple of 1280. -/
structure Fill.Reads (p : Addr) (len : ℕ) (f : Fill) : Prop where
  read : ∀ a ∈ f.read, ∃ j ≤ len, a = p + 1 + BitVec.ofNat 32 j
  starts : ∀ c ∈ f.copied, c.2 = p + 1 → (c.1 - V_MEM_BASE).toNat % 1280 = 0

theorem Fill.Copies.reads {p : Addr} {len : ℕ} {f : Fill} (h : f.Copies p len)
    (hlen : len < 2 ^ 32) : f.Reads p len := by
  refine ⟨h.read, fun c hc hfirst => ?_⟩
  obtain ⟨k, j, hj, hroom, hv, hq⟩ := h.copied c hc
  have hj' := Nat.lt_trans hj hlen
  have hzero : j = 0 := by
    rw [hq] at hfirst
    bv_omega
  rw [hzero, Nat.mul_zero, Nat.add_zero] at hv hroom
  have hoff : (c.1 - V_MEM_BASE).toNat = copySize len * k := by
    rw [hv]
    unfold videoAddr
    bv_omega
  rw [hoff, copySize_mul]
  exact Nat.mul_mod_right ..

section PanicFill

variable {mem : Mem} {p : Addr} {str : List Byte} (hstr : IsStr mem (p + 1) str)
  (hne : str ≠ [])

include hstr hne

/-- The loop ends; it always reads as it should, and writes as it should if the last copy is
    cut. -/
theorem panicFill_spec : ∃ f, (∀ fuel, 17025 ≤ fuel → panicFill mem p fuel = some f) ∧
    f.Reads p str.length ∧
    ((∀ w ∈ f.written, InTextMemory w.1) ↔ LastCopyCut str.length) := by
  have hstart : Filling p str.length 0 0 ⟨V_MEM_BASE, p + 1, [], [], []⟩ := filling_start hne
  obtain ⟨f, k, i, hrun, hf, hend⟩ :=
    fillLoop_ends hstr hstart (by omega) (show 0x4000 + 641 ≤ 17025 by omega)
  refine ⟨f, fun fuel hfuel => fillLoop_mono hrun hfuel, hf.copies.reads hstr.length_lt, ?_⟩
  have hle := hf.le_end
  rw [hf.upto.inText_iff hend (by omega), hf.end_iff hend]

theorem panicFill_inText_iff :
    (∃ fuel f, panicFill mem p fuel = some f ∧ f.Reads p str.length ∧
      ∀ w ∈ f.written, InTextMemory w.1) ↔ LastCopyCut str.length := by
  obtain ⟨f, hrun, hreads, hiff⟩ := panicFill_spec hstr hne
  constructor
  · rintro ⟨fuel, f', hrun', _, hall⟩
    have hsame := fillLoop_mono hrun' (Nat.le_max_left fuel 17025)
    have hf := hrun (max fuel 17025) (Nat.le_max_right fuel 17025)
    obtain rfl : f' = f := Option.some.inj (hsame.symm.trans hf)
    exact hiff.mp hall
  · intro hcut
    exact ⟨17025, f, hrun 17025 (Nat.le_refl _), hreads, hiff.mpr hcut⟩

/-- For every message with at least one character: the loop ends, has read nothing but the
    message and its NUL, and has begun each copy at a multiple of 1280; and all that it has
    written lies in the video memory as well if and only if the last copy is cut off there. -/
theorem panicFill_ok_iff :
    (∃ fuel f, panicFill mem p fuel = some f ∧ f.Reads p str.length) ∧
    ((∃ fuel f, panicFill mem p fuel = some f ∧ f.Reads p str.length ∧
        ∀ w ∈ f.written, InTextMemory w.1) ↔
      LastCopyCut str.length) := by
  obtain ⟨f, hrun, hreads, -⟩ := panicFill_spec hstr hne
  exact ⟨⟨17025, f, hrun 17025 (Nat.le_refl _), hreads⟩, panicFill_inText_iff hstr hne⟩

end PanicFill

/-- The message `a`, at `0x1001`. -/
def letterMessage : Mem := fun a => if a = 0x1001 then 0x61 else 0

theorem panicFill_ok_iff_letter :
    (∃ fuel f, panicFill letterMessage 0x1000 fuel = some f ∧ f.Reads 0x1000 1) ∧
    ((∃ fuel f, panicFill letterMessage 0x1000 fuel = some f ∧ f.Reads 0x1000 1 ∧
        ∀ w ∈ f.written, InTextMemory w.1) ↔
      LastCopyCut 1) :=
  @panicFill_ok_iff letterMessage 0x1000 [0x61] (by decide) (by decide)

/-- A message that fits in a block is cut only if it is longer than the rest of the video
    memory. -/
theorem lastCopyCut_iff {len : ℕ} (hpos : 0 < len) (hle : len ≤ 640) :
    LastCopyCut len ↔ 384 < len := by
  have hblock : copySize len = 1280 := by
    unfold copySize
    omega
  unfold LastCopyCut
  rw [hblock]
  omega

/-- The last copy of the message is padded to 512 bytes behind the video memory. -/
theorem letter_behind_the_screen :
    ¬ ∃ fuel f, panicFill letterMessage 0x1000 fuel = some f ∧ f.Reads 0x1000 1 ∧
      ∀ w ∈ f.written, InTextMemory w.1 := by
  have hstr : IsStr letterMessage (0x1000 + 1) [0x61] := by decide
  have hiff := panicFill_inText_iff hstr (List.cons_ne_nil _ _)
  rw [List.length_singleton, lastCopyCut_iff (by omega) (by omega)] at hiff
  rw [hiff]
  omega

end SimpleOs
