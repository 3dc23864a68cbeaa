import SimpleOs.Lib.ByteMem

/-!
# Paging

`setup_paging` (p_kernel.s:636-690) makes a page directory and as many page tables as the memory
needs, and turns paging on. `kernel_main` does not call it (start.c:541-542). The processor's
walk through the two levels is the reader of what it has written.

* `fillTable_eq`: what the loops write.
* `setupPaging_identity`: every linear address up to the end of the memory is its own physical
  address.
-/

namespace SimpleOs

namespace Paging

open ByteMem

/-! ## The code -/

abbrev PAGE_DIR_BASE : BitVec 32 := 0x200000
abbrev PAGE_TBL_BASE : BitVec 32 := 0x201000

/-- `PG_P | PG_USU | PG_RWW`, and the same with `PAGE_TBL_BASE`. -/
abbrev PG_ATTR : BitVec 32 := 1 ||| 4 ||| 2
abbrev PG_ATTR1 : BitVec 32 := PAGE_TBL_BASE ||| 1 ||| 4 ||| 2

/-- `n` rounds of the loops (p_kernel.s:663-666, 676-679). -/
def fillTable : ℕ → Addr → BitVec 32 → Mem → Mem
  | 0, _, _, mem => mem
  | n + 1, edi, eax, mem => fillTable n (edi + 4) (eax + 4096) (writeWord mem edi eax)

/-- `loop` counts down before it looks at the counter. -/
def rounds (ecx : BitVec 32) : ℕ := if ecx = 0 then 2 ^ 32 else ecx.toNat

/-- The number of page tables (p_kernel.s:639-648). -/
def tables (memsize : BitVec 32) : BitVec 32 :=
  if memsize % 0x400000 = 0 then memsize / 0x400000 else memsize / 0x400000 + 1

/-- What is set up: the memory, and the registers. -/
structure Paged where
  mem : Mem
  cr0 : BitVec 32
  cr3 : BitVec 32

/-- `setup_paging` (p_kernel.s:636-690). -/
def setupPaging (memsize : BitVec 32) (s : Paged) : Paged :=
  let mem := fillTable (rounds (tables memsize)) PAGE_DIR_BASE PG_ATTR1 s.mem
  { mem := fillTable (rounds (tables memsize * 1024)) PAGE_TBL_BASE PG_ATTR mem
    cr0 := s.cr0 ||| 0x80000000
    cr3 := PAGE_DIR_BASE }

/-! ## The processor -/

/-- What a walk yields: the address, and what programs in ring 3 may do there. -/
structure Access where
  phys : Addr
  user : Bool
  writable : Bool

/-- The address in an entry or in `cr3`. -/
def frame (w : BitVec 32) : Addr := w &&& 0xfffff000

/-- The entries that a walk looks at: bits 22 to 31 of an address, and bits 12 to 21. -/
def dirIndex (a : Addr) : BitVec 32 := a >>> 22
def tblIndex (a : Addr) : BitVec 32 := a >>> 12 &&& 0x3ff

/-- The walk through the page directory at `cr3` and a page table. -/
def translate (mem : Mem) (cr3 : BitVec 32) (a : Addr) : Option Access :=
  let pde := readWord mem (frame cr3 + 4 * dirIndex a)
  if pde.getLsbD 0 then
    let pte := readWord mem (frame pde + 4 * tblIndex a)
    if pte.getLsbD 0 then
      some
        { phys := frame pte ||| (a &&& 0xfff)
          user := pde.getLsbD 2 && pte.getLsbD 2
          writable := pde.getLsbD 1 && pte.getLsbD 1 }
    else none
  else none

/-! ## The loops -/

/-- The words that a loop writes, and nothing else. -/
theorem fillTable_eq (n : ℕ) (edi : Addr) (eax : BitVec 32) (mem : Mem) (hn : 4 * n ≤ 2 ^ 32) :
    (∀ i < n, readWord (fillTable n edi eax mem) (edi + BitVec.ofNat 32 (4 * i)) =
        eax + BitVec.ofNat 32 (4096 * i)) ∧
      ∀ a, ¬ InBlock edi (4 * n) a → fillTable n edi eax mem a = mem a := by
  induction n generalizing edi eax mem with
  | zero => exact ⟨fun i hi => absurd hi (Nat.not_lt_zero i), fun a _ => rfl⟩
  | succ n ih =>
    obtain ⟨hwords, hout⟩ := ih (edi + 4) (eax + 4096) (writeWord mem edi eax) (by omega)
    refine ⟨fun i hi => ?_, fun a ha => ?_⟩
    · cases i with
      | zero =>
        have hsame : readWord (fillTable (n + 1) edi eax mem) edi =
            readWord (writeWord mem edi eax) edi := by
          apply readWord_congr
          intro j hj
          refine hout _ ?_
          unfold InBlock
          bv_omega
        simpa [readWord_writeWord] using hsame
      | succ i =>
        have hword := hwords i (by omega)
        have haddr : edi + BitVec.ofNat 32 (4 * (i + 1)) = edi + 4 + BitVec.ofNat 32 (4 * i) := by
          bv_omega
        have hvalue : eax + BitVec.ofNat 32 (4096 * (i + 1)) =
            eax + 4096 + BitVec.ofNat 32 (4096 * i) := by
          bv_omega
        rw [haddr, hvalue]
        exact hword
    · have hrest : ¬ InBlock (edi + 4) (4 * n) a := by
        unfold InBlock at ha ⊢
        bv_omega
      have hword : ¬ InBlock edi 4 a := by
        unfold InBlock at ha ⊢
        omega
      rw [fillTable, hout a hrest, writeWord_out hword]

/-- As many tables as the memory needs, and no more than a directory has. -/
theorem tables_bounds (memsize : BitVec 32) :
    (tables memsize).toNat = (memsize.toNat + 0x3fffff) / 0x400000 := by
  have hlt := memsize.isLt
  unfold tables
  split
  · rename_i h
    have hmod : memsize.toNat % 0x400000 = 0 := by
      have hnat := congrArg BitVec.toNat h
      simpa using hnat
    rw [BitVec.toNat_udiv]
    show memsize.toNat / 0x400000 = _
    omega
  · rename_i h
    have hmod : memsize.toNat % 0x400000 ≠ 0 := by
      intro hc
      apply h
      apply BitVec.eq_of_toNat_eq
      rw [BitVec.toNat_umod]
      exact hc
    rw [BitVec.toNat_add, BitVec.toNat_udiv]
    show (memsize.toNat / 0x400000 + 1) % 2 ^ 32 = _
    omega

/-! ## The walk -/

/-- The address of the frame in an entry. -/
theorem frame_toNat (w : BitVec 32) : (frame w).toNat = w.toNat / 4096 * 4096 := by
  have hshift : frame w = (w >>> 12) <<< 12 := by
    apply BitVec.eq_of_getLsbD_eq
    intro i hi
    have hmask : ∀ i < 32, (0xfffff000 : BitVec 32).getLsbD i = decide (12 ≤ i) := by decide
    rw [frame, BitVec.getLsbD_and, hmask i hi, BitVec.getLsbD_shiftLeft, BitVec.getLsbD_ushiftRight]
    by_cases h : i < 12
    · simp [h, show ¬ 12 ≤ i by omega]
    · simp [h, hi, show 12 ≤ i by omega, show 12 + (i - 12) = i by omega]
  have hlt := w.isLt
  rw [hshift, BitVec.toNat_shiftLeft, BitVec.toNat_ushiftRight, Nat.shiftRight_eq_div_pow,
    Nat.shiftLeft_eq]
  omega

theorem getLsbD_decide (w : BitVec 32) (i : ℕ) : w.getLsbD i = decide (w.toNat / 2 ^ i % 2 = 1) := by
  rw [← BitVec.testBit_toNat, Nat.testBit_eq_decide_div_mod_eq]

theorem dirIndex_toNat (a : Addr) : (4 * dirIndex a).toNat = 4 * (a.toNat / 0x400000) := by
  have hlt := a.isLt
  rw [BitVec.toNat_mul, dirIndex, BitVec.toNat_ushiftRight, Nat.shiftRight_eq_div_pow]
  show 4 * (a.toNat / 2 ^ 22) % 2 ^ 32 = _
  omega

theorem tblIndex_toNat (a : Addr) :
    (4 * tblIndex a).toNat = 4 * (a.toNat / 4096 % 1024) := by
  have hlt := a.isLt
  have hmask : (tblIndex a).toNat = a.toNat / 4096 % 1024 := by
    rw [tblIndex, BitVec.toNat_and, BitVec.toNat_ushiftRight, Nat.shiftRight_eq_div_pow,
      show (0x3ff : BitVec 32).toNat = 2 ^ 10 - 1 from rfl, Nat.and_two_pow_sub_one_eq_mod]
  rw [BitVec.toNat_mul, hmask]
  show 4 * (a.toNat / 4096 % 1024) % 2 ^ 32 = _
  omega

/-- An address, put together again. -/
theorem frame_or_offset (a : Addr) : frame a ||| (a &&& 0xfff) = a := by
  rw [frame, ← BitVec.and_or_distrib_left]
  exact BitVec.and_allOnes

/-- A walk that finds both entries. -/
theorem translate_some {mem : Mem} {cr3 : BitVec 32} {a : Addr} {pde pte : BitVec 32}
    (hpde : readWord mem (frame cr3 + 4 * dirIndex a) = pde)
    (hpte : readWord mem (frame pde + 4 * tblIndex a) = pte)
    (hp : pde.getLsbD 0 = true) (hp' : pte.getLsbD 0 = true) :
    translate mem cr3 a = some
      { phys := frame pte ||| (a &&& 0xfff)
        user := pde.getLsbD 2 && pte.getLsbD 2
        writable := pde.getLsbD 1 && pte.getLsbD 1 } := by
  unfold translate
  dsimp only
  rw [hpde, if_pos hp, hpte, if_pos hp']

/-- The attributes of an entry. -/
theorem attr_bits {w : BitVec 32} (h : w.toNat % 4096 = 7) :
    w.getLsbD 0 = true ∧ w.getLsbD 1 = true ∧ w.getLsbD 2 = true := by
  rw [getLsbD_decide, getLsbD_decide, getLsbD_decide, decide_eq_true_iff, decide_eq_true_iff,
    decide_eq_true_iff]
  omega

section

variable {memsize : BitVec 32} {s : Paged}

theorem rounds_tables (h : memsize ≠ 0) :
    rounds (tables memsize) = (tables memsize).toNat ∧
      rounds (tables memsize * 1024) = 1024 * (tables memsize).toNat ∧
      1 ≤ (tables memsize).toNat ∧ (tables memsize).toNat ≤ 1024 := by
  have hlt := memsize.isLt
  have hcount := tables_bounds memsize
  have hpos : memsize.toNat ≠ 0 := fun hc => h (BitVec.eq_of_toNat_eq hc)
  have hmul : (tables memsize * 1024).toNat = 1024 * (tables memsize).toNat := by
    rw [BitVec.toNat_mul]
    show (tables memsize).toNat * 1024 % 2 ^ 32 = _
    omega
  have hne : tables memsize ≠ 0 := by
    intro hc
    rw [hc] at hcount
    simp at hcount
    omega
  have hne' : tables memsize * 1024 ≠ 0 := by
    intro hc
    rw [hc] at hmul
    simp at hmul
    omega
  unfold rounds
  rw [if_neg hne, if_neg hne', hmul]
  omega

/-- The entries of the directory. -/
theorem setupPaging_dir (h : memsize ≠ 0) {i : ℕ} (hi : i < 1024) :
    readWord (setupPaging memsize s).mem (PAGE_DIR_BASE + BitVec.ofNat 32 (4 * i)) =
      if i < (tables memsize).toNat then PG_ATTR1 + BitVec.ofNat 32 (4096 * i)
      else readWord s.mem (PAGE_DIR_BASE + BitVec.ofNat 32 (4 * i)) := by
  obtain ⟨hdir, htbl, hpos, hle⟩ := rounds_tables h
  unfold setupPaging
  dsimp only
  rw [hdir, htbl]
  generalize (tables memsize).toNat = n at *
  have hkeep := (fillTable_eq (1024 * n) PAGE_TBL_BASE PG_ATTR
    (fillTable n PAGE_DIR_BASE PG_ATTR1 s.mem) (by omega)).2
  obtain ⟨hwords, hout⟩ := fillTable_eq n PAGE_DIR_BASE PG_ATTR1 s.mem (by omega)
  have hsame : readWord (fillTable (1024 * n) PAGE_TBL_BASE PG_ATTR
      (fillTable n PAGE_DIR_BASE PG_ATTR1 s.mem)) (PAGE_DIR_BASE + BitVec.ofNat 32 (4 * i)) =
      readWord (fillTable n PAGE_DIR_BASE PG_ATTR1 s.mem)
        (PAGE_DIR_BASE + BitVec.ofNat 32 (4 * i)) := by
    apply readWord_congr
    intro j hj
    apply hkeep
    unfold InBlock
    bv_omega
  rw [hsame]
  split
  · rename_i hin
    exact hwords i hin
  · rename_i hnot
    apply readWord_congr
    intro j hj
    apply hout
    unfold InBlock
    bv_omega

/-- The entries of the tables, which lie one behind the other. -/
theorem setupPaging_tbl (h : memsize ≠ 0) {i : ℕ} (hi : i < 1024 * (tables memsize).toNat) :
    readWord (setupPaging memsize s).mem (PAGE_TBL_BASE + BitVec.ofNat 32 (4 * i)) =
      PG_ATTR + BitVec.ofNat 32 (4096 * i) := by
  obtain ⟨hdir, htbl, hpos, hle⟩ := rounds_tables h
  unfold setupPaging
  dsimp only
  rw [htbl]
  exact (fillTable_eq _ _ _ _ (by omega)).1 i hi

/-- With paging on, every linear address up to the end of the memory is its own physical
    address, which all programs can read and write. The page tables and the first entries of
    the directory are all that is written; the other entries are what was there before. -/
theorem setupPaging_identity (h : memsize ≠ 0) (s : Paged) :
    ((setupPaging memsize s).cr3 = PAGE_DIR_BASE ∧ (setupPaging memsize s).cr0.getLsbD 31 = true) ∧
      (∀ a : Addr, a.toNat < (memsize.toNat + 0x3fffff) / 0x400000 * 0x400000 →
        translate (setupPaging memsize s).mem (setupPaging memsize s).cr3 a =
          some ⟨a, true, true⟩) ∧
      (∀ a : Addr, ¬ InBlock PAGE_DIR_BASE (4 * ((memsize.toNat + 0x3fffff) / 0x400000)) a →
        ¬ InBlock PAGE_TBL_BASE (4096 * ((memsize.toNat + 0x3fffff) / 0x400000)) a →
        (setupPaging memsize s).mem a = s.mem a) := by
  obtain ⟨hdir, htbl, hpos, hle⟩ := rounds_tables h
  have hcount := tables_bounds memsize
  rw [← hcount]
  refine ⟨⟨rfl, ?_⟩, fun a ha => ?_, fun a hout hout' => ?_⟩
  · show (s.cr0 ||| 0x80000000).getLsbD 31 = true
    rw [BitVec.getLsbD_or]
    exact Bool.or_true _
  · have hindex : a.toNat / 0x400000 < (tables memsize).toNat := by omega
    have hpde := setupPaging_dir (s := s) h (i := a.toNat / 0x400000) (by omega)
    rw [if_pos hindex] at hpde
    have hpte := setupPaging_tbl (s := s) h (i := a.toNat / 4096) (by omega)
    generalize hd : PG_ATTR1 + BitVec.ofNat 32 (4096 * (a.toNat / 0x400000)) = pde at hpde
    generalize ht : PG_ATTR + BitVec.ofNat 32 (4096 * (a.toNat / 4096)) = pte at hpte
    have hlt := a.isLt
    have hdnat : pde.toNat = 0x201007 + 4096 * (a.toNat / 0x400000) := by
      rw [← hd, BitVec.toNat_add, BitVec.toNat_ofNat]
      show (0x201007 + _) % 2 ^ 32 = _
      omega
    have htnat : pte.toNat = 7 + 4096 * (a.toNat / 4096) := by
      rw [← ht, BitVec.toNat_add, BitVec.toNat_ofNat]
      show (7 + _) % 2 ^ 32 = _
      omega
    obtain ⟨hp, hw, hu⟩ := attr_bits (w := pde) (by omega)
    obtain ⟨hp', hw', hu'⟩ := attr_bits (w := pte) (by omega)
    have hdaddr : frame PAGE_DIR_BASE + 4 * dirIndex a =
        PAGE_DIR_BASE + BitVec.ofNat 32 (4 * (a.toNat / 0x400000)) := by
      rw [show frame PAGE_DIR_BASE = PAGE_DIR_BASE by decide]
      congr 1
      apply BitVec.eq_of_toNat_eq
      rw [dirIndex_toNat, BitVec.toNat_ofNat]
      omega
    have htaddr : frame pde + 4 * tblIndex a =
        PAGE_TBL_BASE + BitVec.ofNat 32 (4 * (a.toNat / 4096)) := by
      apply BitVec.eq_of_toNat_eq
      rw [BitVec.toNat_add, frame_toNat, hdnat, tblIndex_toNat, BitVec.toNat_add, BitVec.toNat_ofNat]
      show _ = (0x201000 + _) % 2 ^ 32
      omega
    -- the frame is that of the address
    have hframe : frame pte = frame a := by
      apply BitVec.eq_of_toNat_eq
      rw [frame_toNat, frame_toNat, htnat]
      omega
    show translate _ PAGE_DIR_BASE a = _
    rw [translate_some (by rw [hdaddr]; exact hpde) (by rw [htaddr]; exact hpte) hp hp', hw, hw', hu,
      hu', hframe, frame_or_offset]
    rfl
  · unfold setupPaging
    dsimp only
    rw [hdir, htbl]
    have htables : 4096 * (tables memsize).toNat = 4 * (1024 * (tables memsize).toNat) := by omega
    rw [htables] at hout'
    rw [(fillTable_eq _ _ _ _ (by omega)).2 a hout', (fillTable_eq _ _ _ _ (by omega)).2 a hout]

/-- The memory that `memtest` finds in the machine with 32 megabytes, empty before. -/
theorem setupPaging_identity_32 :
    translate (setupPaging 0x2001000 ⟨fun _ => 0, 0x11, 0⟩).mem
        (setupPaging 0x2001000 ⟨fun _ => 0, 0x11, 0⟩).cr3 0x1234567 =
      some ⟨0x1234567, true, true⟩ :=
  (setupPaging_identity (by decide) ⟨fun _ => 0, 0x11, 0⟩).2.1 0x1234567 (by decide)

end

end Paging

end SimpleOs
