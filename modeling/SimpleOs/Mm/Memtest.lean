import Mathlib.Order.Bounds.Basic
import SimpleOs.Lib.Backed
import SimpleOs.Mm.RealMemory

/-!
# The memory probe

Model of `memtest_sub` (p_kernel.s:601-633), instruction by instruction. What it is for is
said by the comments beside the instructions and by the C version (mm/mm.c:101-124), which is
not compiled. The stack is kept apart from the memory under test.

* `Mts.mtsLoop_eq`: one pass, which leaves the memory as it found it.
* `Mts.mtsRun_ends`: how a run ends.
* `memtest_sub_iff`: when it finds the size of the memory.
* `Mts.memtestSub_eax`: the run is the one of the abstract `memtestSub`.
* `memtest_finds`, `mmInit_finds`: what `mm_init` gets from it when it works.
-/

namespace SimpleOs

open ByteMem

/-- What `memtest_sub` works on: the registers it names, the words on the stack from `esp`
    up, the memory, and the words it has tested. -/
structure Mts where
  eax : BitVec 32
  ebx : BitVec 32
  edx : BitVec 32
  esi : BitVec 32
  edi : BitVec 32
  stack : List (BitVec 32)
  mem : Mem
  tested : List Addr

namespace Mts

/-- `pushl`. -/
def push (m : Mts) (v : BitVec 32) : Mts := { m with stack := v :: m.stack }

/-- The word at `off(%esp)`. -/
def onStack (m : Mts) (off : ℕ) : BitVec 32 := m.stack.getD (off / 4) 0

/-- `pop %ebx`, `pop %esi`, `pop %edi`. -/
def pops (m : Mts) : Mts :=
  { m with
    ebx := m.onStack 0
    esi := m.onStack 4
    edi := m.onStack 8
    stack := m.stack.drop 3 }

variable (backed : Addr → Bool)

/-- `mov src, (%ebx)`. -/
def movMem (m : Mts) (v : BitVec 32) : Mts := { m with mem := store backed m.mem m.ebx v }

/-- `xorl $0xffffffff, (%ebx)`. -/
def xorMem (m : Mts) : Mts := m.movMem backed (readWord m.mem m.ebx ^^^ 0xffffffff)

/-- `mts_fin` (p_kernel.s:628-633). -/
def mtsFin (m : Mts) : Mts := (m.movMem backed m.edx).pops

/-- One pass of `mts_loop` (p_kernel.s:609-627), and whether it is followed by another. -/
def mtsLoop (m : Mts) : Mts × Bool :=
  let m := { m with ebx := m.eax }
  -- without a `$` the operand is the word at that address
  let m := { m with ebx := m.ebx + readWord m.mem 0xffc }
  let m := { m with edx := readWord m.mem m.ebx, tested := m.tested ++ [m.ebx] }
  let m := m.movMem backed m.esi
  let m := m.xorMem backed
  if m.edi ≠ readWord m.mem m.ebx then (m.mtsFin backed, false)
  else
    let m := m.xorMem backed
    if m.esi ≠ readWord m.mem m.ebx then (m.mtsFin backed, false)
    else
      let m := m.movMem backed m.edx
      let m := { m with eax := m.eax + 0x1000 }
      if m.eax ≤ m.onStack (12 + 8) then (m, true) else (m.pops, false)

/-- At most `fuel` passes. -/
def mtsRun : ℕ → Mts → Option Mts
  | 0, _ => none
  | fuel + 1, m =>
    if (m.mtsLoop backed).2 then mtsRun fuel (m.mtsLoop backed).1
    else some (m.mtsLoop backed).1

/-- `memtest_sub` (p_kernel.s:602-633), at most `fuel` passes of its loop. -/
def memtestSub (fuel : ℕ) (m : Mts) : Option Mts :=
  let m := ((m.push m.edi).push m.esi).push m.ebx
  let m := { m with esi := 0xaa55aa55, edi := 0x55aa55aa }
  mtsRun backed fuel { m with eax := m.onStack (12 + 4) }

/-- The machine at the entry of `memtest_sub(start, end)`. -/
def call (m : Mts) (ret start stop : BitVec 32) : Mts :=
  { m with stack := ret :: start :: stop :: m.stack, tested := [] }

/-! ## One pass -/

/-- The word that the pass tests. -/
def word (m : Mts) : Addr := m.eax + readWord m.mem 0xffc

/-- The machine after a test, before the next page. -/
def noted (m : Mts) : Mts :=
  { m with
    ebx := m.word
    edx := readWord m.mem m.word
    tested := m.tested ++ [m.word] }

/-- The machine at the next page. -/
def next (m : Mts) : Mts := { m.noted with eax := m.eax + 0x1000 }

variable {backed} {m : Mts}

/-- A pass only sees whether the word is wholly there. Either way it puts back what it
    found. -/
theorem mtsLoop_eq (hesi : m.esi = 0xaa55aa55) (hedi : m.edi = 0x55aa55aa) :
    m.mtsLoop backed =
      if Whole backed m.word then
        if m.eax + 0x1000 ≤ m.onStack (12 + 8) then (m.next, true) else (m.next.pops, false)
      else (m.noted.pops, false) := by
  have hpats : ∀ i < 4, (0x55aa55aa : BitVec 32).extractLsb' (8 * i) 8 ≠
      (0xaa55aa55 : BitVec 32).extractLsb' (8 * i) 8 := by decide
  have hone : (0xaa55aa55 : BitVec 32) ^^^ 0xffffffff = 0x55aa55aa := by decide
  have htwo : (0x55aa55aa : BitVec 32) ^^^ 0xffffffff = 0xaa55aa55 := by decide
  by_cases hwhole : Whole backed m.word
  · rw [if_pos hwhole]
    unfold word at hwhole
    simp only [mtsLoop, next, noted, word, xorMem, movMem, onStack, store_store, store_readWord,
      readWord_store hwhole, hesi, hedi, hone, htwo, ne_eq, not_true_eq_false, if_false]
  · rw [if_neg hwhole]
    unfold word at hwhole
    simp only [mtsLoop, mtsFin, noted, word, xorMem, movMem, store_store, store_readWord, hesi,
      hedi]
    -- a missing byte is the same in both comparisons, and the patterns differ in it
    split_ifs with hp hq
    · rfl
    · rfl
    all_goals exact (not_both_kept hwhole hpats (not_not.mp hp).symm (not_not.mp hq).symm).elim

/-! ## A run -/

/-- The word that the pass for the page with the number `k` tests. -/
def wordAt (m : Mts) (k : ℕ) : Addr :=
  m.eax + BitVec.ofNat 32 (k * 0x1000) + readWord m.mem 0xffc

/-- A run from `m` has passed `k` pages and ended as `out`. -/
structure Ends (backed : Addr → Bool) (m : Mts) (k : ℕ) (out : Mts) : Prop where
  eax : out.eax.toNat = m.eax.toNat + k * 0x1000
  mem : out.mem = m.mem
  ebx : out.ebx = m.onStack 0
  esi : out.esi = m.onStack 4
  edi : out.edi = m.onStack 8
  stack : out.stack = m.stack.drop 3
  tested : ∃ rest, out.tested = m.tested ++ ((List.range k).map m.wordAt ++ rest)
  inside : ∀ j < k, m.eax.toNat + j * 0x1000 ≤ (m.onStack (12 + 8)).toNat
  whole : ∀ j < k, Whole backed (m.wordAt j)
  last : ¬ Whole backed (m.wordAt k) ∨ (m.onStack (12 + 8)).toNat < m.eax.toNat + k * 0x1000

@[simp] theorem next_eax : m.next.eax = m.eax + 0x1000 := rfl
@[simp] theorem next_esi : m.next.esi = m.esi := by simp only [next, noted]
@[simp] theorem next_edi : m.next.edi = m.edi := by simp only [next, noted]
@[simp] theorem next_mem : m.next.mem = m.mem := by simp only [next, noted]
@[simp] theorem next_stack : m.next.stack = m.stack := by simp only [next, noted]
@[simp] theorem next_tested : m.next.tested = m.tested ++ [m.word] := by simp only [next, noted]

@[simp] theorem next_onStack (off : ℕ) : m.next.onStack off = m.onStack off := by
  unfold onStack
  rw [next_stack]

@[simp] theorem pops_eax : m.pops.eax = m.eax := rfl
@[simp] theorem pops_mem : m.pops.mem = m.mem := rfl
@[simp] theorem pops_ebx : m.pops.ebx = m.onStack 0 := rfl
@[simp] theorem pops_esi : m.pops.esi = m.onStack 4 := rfl
@[simp] theorem pops_edi : m.pops.edi = m.onStack 8 := rfl
@[simp] theorem pops_stack : m.pops.stack = m.stack.drop 3 := rfl
@[simp] theorem pops_tested : m.pops.tested = m.tested := rfl

theorem wordAt_zero : m.wordAt 0 = m.word := by
  unfold wordAt word
  rw [Nat.zero_mul, BitVec.ofNat_eq_ofNat, BitVec.add_zero]

theorem next_wordAt (k : ℕ) : m.next.wordAt k = m.wordAt (k + 1) := by
  have hmul : (k + 1) * 0x1000 = 0x1000 + k * 0x1000 := by omega
  have hpage : m.eax + 0x1000 + BitVec.ofNat 32 (k * 0x1000) =
      m.eax + BitVec.ofNat 32 ((k + 1) * 0x1000) := by
    rw [hmul, BitVec.ofNat_add, ← BitVec.add_assoc]
    rfl
  unfold wordAt
  rw [next_eax, next_mem, hpage]

/-- The pass that finds a word missing. -/
theorem ends_missing (h : ¬ Whole backed m.word) : Ends backed m 0 m.noted.pops where
  eax := by rw [Nat.zero_mul, Nat.add_zero]; rfl
  mem := rfl
  ebx := rfl
  esi := rfl
  edi := rfl
  stack := rfl
  tested := ⟨[m.word], rfl⟩
  inside := fun j hj => absurd hj (Nat.not_lt_zero j)
  whole := fun j hj => absurd hj (Nat.not_lt_zero j)
  last := Or.inl (wordAt_zero ▸ h)

/-- The pass for the last page. -/
theorem ends_last (h : Whole backed m.word) (hin : m.eax ≤ m.onStack (12 + 8))
    (hstop : (m.onStack (12 + 8)).toNat < 2 ^ 32 - 0x1000)
    (hlast : ¬ m.eax + 0x1000 ≤ m.onStack (12 + 8)) : Ends backed m 1 m.next.pops := by
  have hnat : (m.eax + 0x1000).toNat = m.eax.toNat + 1 * 0x1000 := by bv_omega
  refine ⟨hnat, by simp, by simp, by simp, by simp, by simp, ⟨[], ?_⟩, fun j hj => ?_,
    fun j hj => ?_, Or.inr ?_⟩
  · rw [pops_tested, next_tested, List.range_one, List.map_singleton, wordAt_zero, List.append_nil]
  · obtain rfl : j = 0 := by omega
    rw [Nat.zero_mul]
    exact BitVec.le_def.mp hin
  · obtain rfl : j = 0 := by omega
    rw [wordAt_zero]
    exact h
  · rw [BitVec.le_def, hnat] at hlast
    omega

/-- A pass before the rest of the run. -/
theorem Ends.before {k : ℕ} {out : Mts} (hrest : Ends backed m.next k out)
    (h : Whole backed m.word) (hin : m.eax ≤ m.onStack (12 + 8))
    (hnat : m.next.eax.toNat = m.eax.toNat + 0x1000) : Ends backed m (k + 1) out := by
  have heax := hrest.eax
  have hlast := hrest.last
  rw [hnat] at heax hlast
  refine ⟨by omega, hrest.mem.trans next_mem, hrest.ebx.trans (next_onStack 0),
    hrest.esi.trans (next_onStack 4), hrest.edi.trans (next_onStack 8), ?_, ?_, fun j hj => ?_,
    fun j hj => ?_, ?_⟩
  · rw [hrest.stack, next_stack]
  · obtain ⟨rest, hrest⟩ := hrest.tested
    refine ⟨rest, ?_⟩
    have hmap : (List.range k).map m.next.wordAt = (List.range k).map (m.wordAt ∘ Nat.succ) :=
      List.map_congr_left fun j _ => next_wordAt j
    rw [hrest, next_tested, hmap, List.range_succ_eq_map, List.map_cons, List.map_map,
      wordAt_zero, List.append_assoc, List.cons_append, List.nil_append, List.cons_append]
  · cases j with
    | zero =>
      rw [Nat.zero_mul]
      exact BitVec.le_def.mp hin
    | succ j =>
      have hle := hrest.inside j (by omega)
      rw [hnat, next_onStack] at hle
      omega
  · cases j with
    | zero =>
      rw [wordAt_zero]
      exact h
    | succ j =>
      rw [← next_wordAt]
      exact hrest.whole j (by omega)
  · rw [next_wordAt] at hlast
    refine hlast.imp_right fun hlt => ?_
    rw [next_onStack] at hlt
    omega

/-- With a pass for every page up to `end` the run ends. -/
theorem mtsRun_ends (fuel : ℕ) (m : Mts) (hesi : m.esi = 0xaa55aa55) (hedi : m.edi = 0x55aa55aa)
    (hin : m.eax ≤ m.onStack (12 + 8)) (hstop : (m.onStack (12 + 8)).toNat < 2 ^ 32 - 0x1000)
    (hfuel : (m.onStack (12 + 8)).toNat < m.eax.toNat + fuel * 0x1000) :
    ∃ k out, mtsRun backed fuel m = some out ∧ Ends backed m k out := by
  induction fuel generalizing m with
  | zero =>
    have hle := BitVec.le_def.mp hin
    omega
  | succ fuel ih =>
    rw [mtsRun, mtsLoop_eq hesi hedi]
    by_cases hwhole : Whole backed m.word
    · rw [if_pos hwhole]
      by_cases hmore : m.eax + 0x1000 ≤ m.onStack (12 + 8)
      · rw [if_pos hmore]
        have hnat : (m.eax + 0x1000).toNat = m.eax.toNat + 0x1000 := by bv_omega
        obtain ⟨k, out, hrun, hends⟩ := ih m.next (next_esi.trans hesi) (next_edi.trans hedi)
          (by rw [next_eax, next_onStack]; exact hmore) (by rw [next_onStack]; exact hstop)
          (by rw [next_eax, next_onStack]; omega)
        exact ⟨k + 1, out, hrun, hends.before hwhole hin hnat⟩
      · rw [if_neg hmore]
        exact ⟨1, m.next.pops, rfl, ends_last hwhole hin hstop hmore⟩
    · rw [if_neg hwhole]
      exact ⟨0, m.noted.pops, rfl, ends_missing hwhole⟩

/-! ## The call -/

/-- The machine at the first pass. -/
def first (m : Mts) (ret start stop : BitVec 32) : Mts :=
  { m with
    eax := start
    esi := 0xaa55aa55
    edi := 0x55aa55aa
    stack := m.ebx :: m.esi :: m.edi :: ret :: start :: stop :: m.stack
    tested := [] }

theorem memtestSub_first (fuel : ℕ) (ret start stop : BitVec 32) :
    (m.call ret start stop).memtestSub backed fuel = mtsRun backed fuel (m.first ret start stop) :=
  rfl

/-- The call returns, with the memory, the stack and the registers of the caller as they
    were. -/
theorem memtestSub_ends (m : Mts) (ret start stop : BitVec 32) (hle : start ≤ stop)
    (hstop : stop.toNat < 2 ^ 32 - 0x1000) :
    ∃ k out, (m.call ret start stop).memtestSub backed (2 ^ 20) = some out ∧
      Ends backed (m.first ret start stop) k out ∧ out.mem = m.mem ∧
      out.stack = ret :: start :: stop :: m.stack ∧ out.ebx = m.ebx ∧ out.esi = m.esi ∧
      out.edi = m.edi := by
  obtain ⟨k, out, hrun, hends⟩ :=
    @mtsRun_ends backed (2 ^ 20) (m.first ret start stop) rfl rfl hle hstop (by
      change stop.toNat < start.toNat + 2 ^ 20 * 0x1000
      omega)
  exact ⟨k, out, (memtestSub_first _ ret start stop).trans hrun, hends, hends.mem, hends.stack,
    hends.ebx, hends.esi, hends.edi⟩

/-- The memory as `memtest` sees it. -/
def ram (backed : Addr → Bool) (mem : Mem) : Ram where
  keeps a := decide (Whole backed a)
  wordFfc := readWord mem 0xffc

theorem mtsRun_eax (fuel : ℕ) (m : Mts) (hesi : m.esi = 0xaa55aa55) (hedi : m.edi = 0x55aa55aa) :
    (mtsRun backed fuel m).map eax =
      SimpleOs.memtestSub (ram backed m.mem) (m.onStack (12 + 8)) fuel m.eax := by
  induction fuel generalizing m with
  | zero => rfl
  | succ fuel ih =>
    have hkeeps : (ram backed m.mem).keeps (m.eax + (ram backed m.mem).wordFfc) =
        decide (Whole backed m.word) := rfl
    rw [mtsRun, SimpleOs.memtestSub, mtsLoop_eq hesi hedi, hkeeps]
    by_cases hwhole : Whole backed m.word
    · rw [if_pos hwhole, if_pos (decide_eq_true hwhole)]
      by_cases hmore : m.eax + 0x1000 ≤ m.onStack (12 + 8)
      · rw [if_pos hmore, if_pos hmore, if_pos rfl]
        have hrest := ih m.next (next_esi.trans hesi) (next_edi.trans hedi)
        rw [next_mem, next_onStack, next_eax] at hrest
        exact hrest
      · rw [if_neg hmore, if_neg hmore]
        rfl
    · rw [if_neg hwhole, if_neg (mt of_decide_eq_true hwhole)]
      rfl

/-- The value that `memtest` gets from the call is the one of the abstract memory. -/
theorem memtestSub_eax (m : Mts) (ret start stop : BitVec 32) :
    ((m.call ret start stop).memtestSub backed (2 ^ 20)).map eax =
      memtest (ram backed m.mem) start stop := by
  rw [memtestSub_first]
  exact mtsRun_eax (2 ^ 20) (m.first ret start stop) rfl rfl

end Mts

/-! ## The size of the memory -/

/-- The bytes below `r` are memory. -/
def below (r : ℕ) (a : Addr) : Bool := decide (a.toNat < r)

/-- What `memtest_sub(start, end)` is for on a machine with `r` bytes of memory: to return
    the first page that is not there or behind `end`, to have tested the last word of every
    page before it, and to leave the memory as it was. -/
structure Probed (r : ℕ) (start stop : BitVec 32) (mem : Mem) (out : Mts) : Prop where
  size : IsLeast {i | ∃ k, i = start.toNat + k * 0x1000 ∧ (r ≤ i ∨ stop.toNat < i)} out.eax.toNat
  tested : ∀ k, start.toNat + k * 0x1000 < out.eax.toNat →
    out.tested[k]? = some (BitVec.ofNat 32 (start.toNat + k * 0x1000 + 0xffc))
  mem : out.mem = mem

/-- A word of a page is there if the page is. -/
theorem whole_in_page {r i off : ℕ} (hr : r % 0x1000 = 0) (hi : i % 0x1000 = 0)
    (hlt : i < 2 ^ 32) (hoff : off ≤ 0xffc) :
    Whole (below r) (BitVec.ofNat 32 (i + off)) ↔ i < r := by
  have hbyte : ∀ j < 4, (BitVec.ofNat 32 (i + off) + BitVec.ofNat 32 j).toNat = i + off + j := by
    intro j hj
    rw [← BitVec.ofNat_add, BitVec.toNat_ofNat]
    omega
  constructor
  · intro h
    have hfirst := of_decide_eq_true (h 0 (by omega))
    rw [hbyte 0 (by omega)] at hfirst
    omega
  · intro h j hj
    apply decide_eq_true
    rw [hbyte j hj]
    omega

section Sizes

variable {r k : ℕ} {m out : Mts} {ret start stop : BitVec 32}

theorem Mts.Ends.tested_getElem? (h : Mts.Ends (below r) (m.first ret start stop) k out) {j : ℕ}
    (hj : j < k) : out.tested[j]? = some ((m.first ret start stop).wordAt j) := by
  obtain ⟨rest, hrest⟩ := h.tested
  have hnil : (m.first ret start stop).tested = [] := rfl
  rw [hrest, hnil, List.nil_append, List.getElem?_append_left (by simpa using hj),
    List.getElem?_map, List.getElem?_range hj]
  rfl

/-- When the loop adds `0xffc` it stops at the end of the memory or of the range. -/
theorem Mts.Ends.probed (h : Mts.Ends (below r) (m.first ret start stop) k out)
    (hr : r % 0x1000 = 0) (hstart : start.toNat % 0x1000 = 0)
    (hstop : stop.toNat < 2 ^ 32 - 0x1000) (hword : readWord m.mem 0xffc = 0xffc) :
    Probed r start stop m.mem out := by
  have heax : out.eax.toNat = start.toNat + k * 0x1000 := h.eax
  have hat : ∀ j, (m.first ret start stop).wordAt j =
      BitVec.ofNat 32 (start.toNat + j * 0x1000 + 0xffc) := by
    intro j
    change start + BitVec.ofNat 32 (j * 0x1000) + readWord m.mem 0xffc = _
    rw [hword, BitVec.ofNat_add, BitVec.ofNat_add, BitVec.ofNat_toNat, BitVec.setWidth_eq]
    rfl
  have hinside : ∀ j < k, start.toNat + j * 0x1000 ≤ stop.toNat := h.inside
  have hthere : ∀ j, start.toNat + j * 0x1000 ≤ stop.toNat →
      (Whole (below r) ((m.first ret start stop).wordAt j) ↔ start.toNat + j * 0x1000 < r) := by
    intro j hj
    rw [hat]
    exact whole_in_page hr (by omega) (by omega) (le_refl _)
  refine ⟨⟨⟨k, heax, ?_⟩, ?_⟩, fun j hj => ?_, h.mem⟩
  · rcases h.last with hmissing | hbehind
    · by_contra hno
      rw [not_or, not_le, not_lt, heax] at hno
      exact hmissing ((hthere k hno.2).mpr hno.1)
    · exact Or.inr (lt_of_lt_of_eq hbehind heax.symm)
  · -- a page before the last one passed, so it is there and in the range
    rintro i ⟨j, rfl, hj⟩
    rw [heax]
    by_contra hlt
    have hjk : j < k := by omega
    have hle := hinside j hjk
    have hlow := (hthere j hle).mp (h.whole j hjk)
    omega
  · rw [h.tested_getElem? (by omega), hat]

/-- When the range begins behind the memory and the first word tested is missing, the loop
    stops at once. -/
theorem Mts.Ends.probed_behind (h : Mts.Ends (below r) (m.first ret start stop) k out)
    (hr : r ≤ start.toNat) (hmissing : ¬ Whole (below r) (start + readWord m.mem 0xffc)) :
    Probed r start stop m.mem out := by
  have hk : k = 0 := by
    by_contra hne
    have hwhole := h.whole 0 (Nat.pos_of_ne_zero hne)
    rw [Mts.wordAt_zero] at hwhole
    exact hmissing hwhole
  subst hk
  have heax : out.eax.toNat = start.toNat := by
    have heax := h.eax
    rw [Nat.zero_mul, Nat.add_zero] at heax
    exact heax
  refine ⟨⟨⟨0, by omega, Or.inl (by omega)⟩, ?_⟩, fun j hj => ?_, h.mem⟩
  · rintro i ⟨j, rfl, _⟩
    omega
  · omega

/-- A run that is right has added `0xffc`, or has passed no page. -/
theorem Probed.word (hp : Probed r start stop m.mem out)
    (h : Mts.Ends (below r) (m.first ret start stop) k out) (hle : start ≤ stop) :
    readWord m.mem 0xffc = 0xffc ∨
      (r ≤ start.toNat ∧ ¬ Whole (below r) (start + readWord m.mem 0xffc)) := by
  have heax : out.eax.toNat = start.toNat + k * 0x1000 := h.eax
  have hle := BitVec.le_def.mp hle
  rcases Nat.lt_or_ge start.toNat r with hlow | hhigh
  · -- the first page is passed, and so its last word must have been tested
    obtain ⟨j, hj, hend⟩ := hp.size.1
    have hfirst := hp.tested 0 (by omega)
    rw [h.tested_getElem? (by omega)] at hfirst
    have hword := Option.some.inj hfirst
    have hadded : (m.first ret start stop).word = start + readWord m.mem 0xffc := rfl
    rw [Mts.wordAt_zero, hadded, Nat.zero_mul, Nat.add_zero, BitVec.ofNat_add,
      BitVec.ofNat_toNat, BitVec.setWidth_eq] at hword
    exact Or.inl (by bv_omega)
  · have hzero : out.eax.toNat ≤ start.toNat := hp.size.2 ⟨0, by omega, Or.inl hhigh⟩
    obtain rfl : k = 0 := by omega
    refine Or.inr ⟨hhigh, fun hwhole => ?_⟩
    rcases h.last with hmissing | hbehind
    · rw [Mts.wordAt_zero] at hmissing
      exact hmissing hwhole
    · have hbehind : stop.toNat < start.toNat + 0 * 0x1000 := hbehind
      omega

end Sizes

/-- `memtest_sub` returns and leaves the memory as it was. It finds the size of the memory if
    and only if the word at `0xffc` is `0xffc`, or the range begins behind the memory and the
    word that is tested first is not there. -/
theorem memtest_sub_iff (r : ℕ) (m : Mts) (ret start stop : BitVec 32) (hr : r % 0x1000 = 0)
    (hstart : start.toNat % 0x1000 = 0) (hle : start ≤ stop)
    (hstop : stop.toNat < 2 ^ 32 - 0x1000) :
    ∃ out, (m.call ret start stop).memtestSub (below r) (2 ^ 20) = some out ∧ out.mem = m.mem ∧
      (Probed r start stop m.mem out ↔ readWord m.mem 0xffc = 0xffc ∨
        (r ≤ start.toNat ∧ ¬ Whole (below r) (start + readWord m.mem 0xffc))) := by
  obtain ⟨k, out, hrun, hends, hmem, _⟩ :=
    @Mts.memtestSub_ends (below r) m ret start stop hle hstop
  refine ⟨out, hrun, hmem, fun hp => hp.word hends hle, fun h => ?_⟩
  rcases h with hword | ⟨hbehind, hmissing⟩
  · exact hends.probed hr hstart hstop hword
  · exact hends.probed_behind hbehind hmissing

/-- A machine with the word `w` at `0xffc` and 0 elsewhere. -/
def Mts.withWord (w : BitVec 32) : Mts where
  eax := 0
  ebx := 0
  edx := 0
  esi := 0
  edi := 0
  stack := []
  mem := writeWord (fun _ => 0) 0xffc w
  tested := []

/-- From 4 MB to 32 MB on a machine of 8 MB with the right word there. -/
theorem memtest_sub_eight_megabytes :
    ∃ out, ((Mts.withWord 0xffc).call 0 0x00400000 0x2000000).memtestSub (below 0x800000)
        (2 ^ 20) = some out ∧
      Probed 0x800000 0x00400000 0x2000000 (Mts.withWord 0xffc).mem out := by
  obtain ⟨out, hrun, _, hiff⟩ := memtest_sub_iff 0x800000 (Mts.withWord 0xffc) 0 0x00400000
    0x2000000 (by decide) (by decide) (by decide) (by decide)
  exact ⟨out, hrun, hiff.mpr (Or.inl (readWord_writeWord _ _ _))⟩

/-- With `0xffc00000` there, the words tested are those from 0 on: on a machine of 4 MB
    `memtest_sub` finds 8. -/
theorem memtest_sub_other_word :
    ∃ out, ((Mts.withWord 0xffc00000).call 0 0x00400000 0x2000000).memtestSub (below 0x400000)
        (2 ^ 20) = some out ∧
      out.eax = 0x00800000 ∧
      ¬ Probed 0x400000 0x00400000 0x2000000 (Mts.withWord 0xffc00000).mem out := by
  obtain ⟨k, out, hrun, hends, _⟩ := @Mts.memtestSub_ends (below 0x400000)
    (Mts.withWord 0xffc00000) 0 0x00400000 0x2000000 (by decide) (by decide)
  have hat : ∀ j, ((Mts.withWord 0xffc00000).first 0 0x00400000 0x2000000).wordAt j =
      BitVec.ofNat 32 (j * 0x1000) := by
    intro j
    have hword : readWord (Mts.withWord 0xffc00000).mem 0xffc = 0xffc00000 :=
      readWord_writeWord _ _ _
    change 0x00400000 + BitVec.ofNat 32 (j * 0x1000) +
      readWord (Mts.withWord 0xffc00000).mem 0xffc = _
    rw [hword]
    bv_omega
  have hthere : ∀ j ≤ 1024, Whole (below 0x400000) (BitVec.ofNat 32 (j * 0x1000)) ↔ j < 1024 := by
    intro j hj
    have hpage := @whole_in_page 0x400000 (j * 0x1000) 0 rfl (by omega) (by omega) (by omega)
    rw [Nat.add_zero] at hpage
    rw [hpage]
    omega
  have heax : out.eax.toNat = 0x00400000 + k * 0x1000 := hends.eax
  have hlow : k ≤ 1024 := by
    by_contra hhigh
    have hwhole := hends.whole 1024 (by omega)
    rw [hat, hthere 1024 (le_refl _)] at hwhole
    exact absurd hwhole (Nat.lt_irrefl _)
  have hk : k = 1024 := by
    rcases hends.last with hmissing | hbehind
    · rw [hat, hthere k hlow] at hmissing
      omega
    · have hbehind : 0x2000000 < 0x00400000 + k * 0x1000 := hbehind
      omega
  refine ⟨out, hrun, ?_, fun hp => ?_⟩
  · apply BitVec.eq_of_toNat_eq
    rw [heax, hk]
    rfl
  · have hle : out.eax.toNat ≤ 0x00400000 := hp.size.2 ⟨0, rfl, Or.inl le_rfl⟩
    omega

/-! ## What `mm_init` finds -/

/-- With the right word at `0xffc`, `memtest` finds every size from 4 MB to one page behind
    32 MB. -/
theorem memtest_finds {r : ℕ} {mem : Mem} (hr : r % 0x1000 = 0) (hlow : 0x00400000 ≤ r)
    (hhigh : r ≤ 0x02001000) (hword : readWord mem 0xffc = 0xffc) :
    memtest (Mts.ram (below r) mem) 0x00400000 0x2000000 = some (BitVec.ofNat 32 r) := by
  let m : Mts := ⟨0, 0, 0, 0, 0, [], mem, []⟩
  obtain ⟨k, out, hrun, hends, _⟩ :=
    @Mts.memtestSub_ends (below r) m 0 0x00400000 0x2000000 (by decide) (by decide)
  have hsize := (hends.probed hr (by decide) (by decide) hword).size
  have hstart : (0x00400000 : BitVec 32).toNat = 0x00400000 := rfl
  have hstop : (0x2000000 : BitVec 32).toNat = 0x2000000 := rfl
  rw [hstart, hstop] at hsize
  have hle : out.eax.toNat ≤ r := hsize.2 ⟨(r - 0x00400000) / 0x1000, by omega, Or.inl (le_refl r)⟩
  have heq : out.eax.toNat = r := by
    obtain ⟨j, hj, hend⟩ := hsize.1
    omega
  have heax : out.eax = BitVec.ofNat 32 r := by
    apply BitVec.eq_of_toNat_eq
    rw [heq, BitVec.toNat_ofNat]
    omega
  have hmemtest := @Mts.memtestSub_eax (below r) m 0 0x00400000 0x2000000
  rw [hrun] at hmemtest
  rw [← heax]
  exact hmemtest.symm

/-- `mm_init` on such a machine: the blocks are real from 20 MB on. -/
theorem mmInit_finds {r : ℕ} {mem : Mem} (hr : r % 0x1000 = 0) (hlow : 0x00400000 ≤ r)
    (hhigh : r ≤ 0x02001000) (hword : readWord mem 0xffc = 0xffc) (k : Machine) :
    ∃ k', mmInit (Mts.ram (below r) mem) k = some (BitVec.ofNat 32 r, k') ∧
      (RealBlocks (BitVec.ofNat 32 r) k' ↔ 0x01400000 ≤ r) := by
  have hnat : (BitVec.ofNat 32 r).toNat = r := by
    rw [BitVec.toNat_ofNat]
    omega
  refine ⟨{ k with mmStart := BitVec.ofNat 32 r - 16 * 1024 * 1024 }, ?_, fun h => ?_,
    fun h => realBlocks_of_le rfl (by omega) (by omega)⟩
  · rw [mmInit, memtest_finds hr hlow hhigh hword]
    rfl
  · have hle := h.le rfl (by omega)
    omega

end SimpleOs
