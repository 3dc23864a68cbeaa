import SimpleOs.Lib.ByteMem

/-!
# NUL-terminated strings in memory

`IsStr mem a s` says that the bytes of `s` stand at `a`, none of them NUL, and
that a NUL byte follows. The relation is a partial function of the address
(`IsStr.unique`), it depends on the bytes of the string only (`IsStr.congr`),
and no string is longer than the address space (`IsStr.length_lt`). In a memory
with a NUL byte there is a string everywhere (`exists_isStr`); `stringAt` is it
(`isStr_stringAt`).
-/

namespace ByteMem

/-- The string `s` stands at `a`. -/
def IsStr (mem : Mem) : Addr → List Byte → Prop
  | a, [] => mem a = 0
  | a, c :: s => mem a = c ∧ c ≠ 0 ∧ IsStr mem (a + 1) s

instance decidableIsStr (mem : Mem) : (a : Addr) → (s : List Byte) → Decidable (IsStr mem a s)
  | a, [] => inferInstanceAs (Decidable (mem a = 0))
  | a, _ :: s =>
    have := decidableIsStr mem (a + 1) s
    inferInstanceAs (Decidable (_ ∧ _ ∧ _))

theorem add_one_add_ofNat (a : Addr) (i : ℕ) :
    a + 1 + BitVec.ofNat 32 i = a + BitVec.ofNat 32 (i + 1) := by
  rw [BitVec.ofNat_add, BitVec.add_assoc, BitVec.add_comm 1 _]
  rfl

theorem IsStr.ne_zero {mem : Mem} {a : Addr} {s : List Byte} (h : IsStr mem a s) {i : ℕ}
    (hi : i < s.length) : mem (a + BitVec.ofNat 32 i) ≠ 0 := by
  induction s generalizing a i with
  | nil => simp at hi
  | cons c s ih =>
    obtain ⟨hc, hne, hs⟩ := h
    cases i with
    | zero =>
      rw [show a + BitVec.ofNat 32 0 = a by simp, hc]
      exact hne
    | succ i =>
      rw [← add_one_add_ofNat]
      exact ih hs (by simpa using hi)

theorem IsStr.nul {mem : Mem} {a : Addr} {s : List Byte} (h : IsStr mem a s) :
    mem (a + BitVec.ofNat 32 s.length) = 0 := by
  induction s generalizing a with
  | nil =>
    rw [List.length_nil, show a + BitVec.ofNat 32 0 = a by simp]
    exact h
  | cons c s ih =>
    rw [List.length_cons, ← add_one_add_ofNat]
    exact ih h.2.2

/-- A string that wrapped around would run over its own end. -/
theorem IsStr.length_lt {mem : Mem} {a : Addr} {s : List Byte} (h : IsStr mem a s) :
    s.length < 2 ^ 32 := by
  by_contra hlong
  have hlt : s.length % 2 ^ 32 < s.length := by omega
  apply h.ne_zero hlt
  have hmod : BitVec.ofNat 32 (s.length % 2 ^ 32) = BitVec.ofNat 32 s.length := by
    apply BitVec.eq_of_toNat_eq
    simp
  rw [hmod]
  exact h.nul

/-- The rule for a loop over a string that has more rounds than the string has characters. -/
theorem IsStr.walk {mem : Mem} {motive : ℕ → Addr → List Byte → Prop}
    (nul : ∀ fuel a, mem a = 0 → motive (fuel + 1) a [])
    (char : ∀ fuel a s, mem a ≠ 0 → IsStr mem (a + 1) s → motive fuel (a + 1) s →
      motive (fuel + 1) a (mem a :: s))
    {fuel : ℕ} {a : Addr} {s : List Byte} (h : IsStr mem a s) (hfuel : s.length < fuel) :
    motive fuel a s := by
  induction s generalizing a fuel with
  | nil =>
    obtain ⟨fuel, rfl⟩ := Nat.exists_eq_add_of_lt hfuel
    rw [List.length_nil, Nat.zero_add]
    exact nul fuel a h
  | cons c s ih =>
    obtain ⟨rfl, hne, hrest⟩ := h
    obtain ⟨fuel, rfl⟩ := Nat.exists_eq_add_of_lt (Nat.zero_lt_of_lt hfuel)
    rw [List.length_cons] at hfuel
    rw [Nat.zero_add]
    exact char fuel a s hne hrest (ih hrest (by omega))

theorem IsStr.unique {mem : Mem} {a : Addr} {s t : List Byte} (hs : IsStr mem a s)
    (ht : IsStr mem a t) : s = t := by
  induction s generalizing a t with
  | nil =>
    cases t with
    | nil => rfl
    | cons d t =>
      have hnul : mem a = 0 := hs
      exact absurd (ht.1.symm.trans hnul) ht.2.1
  | cons c s ih =>
    cases t with
    | nil =>
      have hnul : mem a = 0 := ht
      exact absurd (hs.1.symm.trans hnul) hs.2.1
    | cons d t =>
      rw [← hs.1, ← ht.1, ih hs.2.2 ht.2.2]

theorem IsStr.congr {mem mem' : Mem} {a a' : Addr} {s : List Byte} (h : IsStr mem a s)
    (heq : ∀ i ≤ s.length, mem' (a' + BitVec.ofNat 32 i) = mem (a + BitVec.ofNat 32 i)) :
    IsStr mem' a' s := by
  have h0 : mem' a' = mem a := by
    have := heq 0 (Nat.zero_le _)
    rwa [show a' + BitVec.ofNat 32 0 = a' by simp, show a + BitVec.ofNat 32 0 = a by simp] at this
  induction s generalizing a a' with
  | nil => exact h0.trans h
  | cons c s ih =>
    have heq' : ∀ i ≤ s.length,
        mem' (a' + 1 + BitVec.ofNat 32 i) = mem (a + 1 + BitVec.ofNat 32 i) := by
      intro i hi
      rw [add_one_add_ofNat, add_one_add_ofNat]
      exact heq (i + 1) (by rw [List.length_cons]; omega)
    have h1 := heq' 0 (Nat.zero_le _)
    rw [show a' + 1 + BitVec.ofNat 32 0 = a' + 1 by simp,
      show a + 1 + BitVec.ofNat 32 0 = a + 1 by simp] at h1
    exact ⟨h0.trans h.1, h.2.1, ih h.2.2 heq' h1⟩

/-- Where there is a NUL byte at all, every address is the beginning of a string. -/
theorem exists_isStr {mem : Mem} (h : ∃ z, mem z = 0) (a : Addr) : ∃ s, IsStr mem a s := by
  obtain ⟨z, hz⟩ := h
  -- by the distance to that byte
  generalize hn : (z - a).toNat = n
  induction n generalizing a with
  | zero =>
    have ha : a = z := by bv_omega
    exact ⟨[], ha ▸ hz⟩
  | succ n ih =>
    by_cases hnul : mem a = 0
    · exact ⟨[], hnul⟩
    · obtain ⟨s, hs⟩ := ih (a + 1) (by bv_omega)
      exact ⟨mem a :: s, rfl, hnul, hs⟩

/-- The bytes from `a` on up to the first NUL, of `n` bytes. -/
def stringWithin (n : ℕ) (mem : Mem) (a : Addr) : List Byte :=
  ((List.range n).map fun i => mem (a + BitVec.ofNat 32 i)).takeWhile (· ≠ 0)

/-- The string at `a`, as `IsStr.stringAt_eq` knows it. -/
@[irreducible] def stringAt (mem : Mem) (a : Addr) : List Byte := stringWithin (2 ^ 32) mem a

theorem IsStr.stringWithin_eq {mem : Mem} {a : Addr} {s : List Byte} (h : IsStr mem a s) {n : ℕ}
    (hn : s.length < n) : stringWithin n mem a = s := by
  unfold stringWithin
  induction s generalizing a n with
  | nil =>
    obtain ⟨n, rfl⟩ := Nat.exists_eq_add_of_lt hn
    have hnul : mem (a + BitVec.ofNat 32 0) = 0 := by simpa using h.nul
    rw [List.length_nil, Nat.zero_add, List.range_succ_eq_map, List.map_cons, hnul]
    rfl
  | cons c s ih =>
    obtain ⟨n, rfl⟩ := Nat.exists_eq_add_of_lt (Nat.zero_lt_of_lt hn)
    have hfirst : mem (a + BitVec.ofNat 32 0) = c := by simpa using h.1
    have hrest : ((List.range n).map Nat.succ).map (fun i => mem (a + BitVec.ofNat 32 i)) =
        (List.range n).map fun i => mem (a + 1 + BitVec.ofNat 32 i) := by
      rw [List.map_map]
      refine List.map_congr_left fun i _ => ?_
      rw [Function.comp_apply, add_one_add_ofNat]
    rw [List.length_cons] at hn
    rw [Nat.zero_add, List.range_succ_eq_map, List.map_cons, hfirst, hrest,
      List.takeWhile_cons_of_pos (by simpa using h.2.1), ih h.2.2 (by omega)]

theorem IsStr.stringAt_eq {mem : Mem} {a : Addr} {s : List Byte} (h : IsStr mem a s) :
    stringAt mem a = s := by
  unfold stringAt
  apply h.stringWithin_eq
  exact h.length_lt

theorem isStr_stringAt {mem : Mem} (h : ∃ z, mem z = 0) (a : Addr) :
    IsStr mem a (stringAt mem a) := by
  obtain ⟨s, hs⟩ := exists_isStr h a
  have heq : stringAt mem a = s := hs.stringAt_eq
  rwa [heq]

/-- A memory that holds a given string at 0. -/
def strMem (s : List Byte) : Mem := fun a => s.getD a.toNat 0

theorem strMem_append {t u : List Byte} (hlen : (t ++ u).length < 2 ^ 32) :
    strMem (t ++ u) (BitVec.ofNat 32 t.length) = u.getD 0 0 := by
  rw [List.length_append] at hlen
  rw [strMem, BitVec.toNat_ofNat, Nat.mod_eq_of_lt (by omega), List.getD_eq_getElem?_getD,
    List.getElem?_append_right (le_refl _), Nat.sub_self, List.getD_eq_getElem?_getD]

theorem isStr_strMem_append {t u : List Byte} (h0 : ∀ c ∈ u, c ≠ 0)
    (hlen : (t ++ u).length < 2 ^ 32) : IsStr (strMem (t ++ u)) (BitVec.ofNat 32 t.length) u := by
  induction u generalizing t with
  | nil => exact strMem_append hlen
  | cons c u ih =>
    have hassoc : t ++ c :: u = (t ++ [c]) ++ u := by simp
    have hnext : BitVec.ofNat 32 t.length + 1 = BitVec.ofNat 32 (t ++ [c]).length := by
      rw [List.length_append, BitVec.ofNat_add]
      rfl
    refine ⟨strMem_append hlen, h0 c (List.mem_cons_self ..), ?_⟩
    rw [hassoc] at hlen
    rw [hnext, hassoc]
    exact ih (fun d hd => h0 d (List.mem_cons_of_mem _ hd)) hlen

theorem isStr_strMem {s : List Byte} (h0 : ∀ c ∈ s, c ≠ 0) (hlen : s.length < 2 ^ 32) :
    IsStr (strMem s) 0 s := isStr_strMem_append (t := []) h0 hlen

end ByteMem
