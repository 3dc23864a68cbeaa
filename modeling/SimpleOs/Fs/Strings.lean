import SimpleOs.Fs.Effects

/-!
# The strings of the kernel

`s_strlen` and `s_strcmp` (include/k_string.h:12-37) on strings of any length, and what
`execl` (syscall.c:58-71), `do_execl` (mm/mm.c:288-292) and `romfs_namei`
(fs/romfs.c:135-147) do with a length. `s_strlen` counts in a `u8`; `s_strcmp` keeps the
difference of two characters in an `s8`.

* `sStrlen_right_iff`: when a length and what is computed from it are right.
* `execlMessage_nameLen_lt`: the check of `do_execl` never fails.
* `sStrcmp_zero_iff`: `s_strcmp` compares, and reads no further than the ends.
-/

namespace SimpleOs

open ByteMem Logged

/-! ## `s_strlen` -/

/-- `execl(path)` up to `send_recv` (syscall.c:58-65); `msg` holds what was in the message
    before. -/
def execlMessage (mem : Mem) (msg : Message) (path : Addr) : Except Fault Message := do
  let nameLen ← sStrlen mem path
  .ok { msg with
    type := EXEC
    m3p1 := path
    m3i2 := nameLen
    m3p2 := 0
    m3i3 := 0 }

/-- The length of the string `s` at `a` is right, and so are the offset of the first header
    behind a volume with this name, the `NAME_LEN` of a path, and the check that `do_execl`
    makes of it. -/
structure LengthRight (mem : Mem) (a : Addr) (s : List Byte) : Prop where
  length : sStrlen mem a = .ok (BitVec.ofNat 32 s.length)
  offset : ∀ buf, buf + 16 = a →
    firstOffset mem buf = getNext16Boundary (BitVec.ofNat 32 (s.length + 16))
  nameLen : ∀ msg, ∃ sent, execlMessage mem msg a = .ok sent ∧
    sent.nameLen = BitVec.ofNat 32 s.length
  check : ∀ msg sent img k, execlMessage mem msg a = .ok sent →
    readWord k.mem (img.mmMsg + offM3i2) = sent.nameLen →
    (mmNameLen img k < 256 ↔ s.length < 256)

section Length

variable {mem : Mem} {a : Addr} {s : List Byte}

theorem execlMessage_eq (h : IsStr mem a s) (msg : Message) :
    execlMessage mem msg a = .ok { msg with
      type := EXEC
      m3p1 := a
      m3i2 := BitVec.ofNat 32 (s.length % 256)
      m3p2 := 0
      m3i3 := 0 } := by
  rw [execlMessage, sStrlen_eq h]
  rfl

/-- The `NAME_LEN` of every path is less than `MAX_PATH`. -/
theorem execlMessage_nameLen_lt (h : IsStr mem a s) {msg sent : Message} {img : MmImage}
    {k : Machine} (hsent : execlMessage mem msg a = .ok sent)
    (hrecv : readWord k.mem (img.mmMsg + offM3i2) = sent.nameLen) : mmNameLen img k < 256 := by
  rw [execlMessage_eq h] at hsent
  have hlen : sent.nameLen = BitVec.ofNat 32 (s.length % 256) :=
    congrArg Message.nameLen (Except.ok.inj hsent).symm
  have hmod := Nat.mod_lt s.length (show 256 > 0 by omega)
  unfold mmNameLen
  rw [hrecv, hlen, BitVec.toInt_eq_toNat_of_lt (by rw [BitVec.toNat_ofNat]; omega),
    BitVec.toNat_ofNat]
  omega

/-- A length is right if and only if it fits into the counter. -/
theorem sStrlen_right_iff (mem : Mem) (a : Addr) (s : List Byte) (h : IsStr mem a s)
    (hlen : s.length < 2 ^ 31) : LengthRight mem a s ↔ s.length < 256 := by
  constructor
  · intro hright
    have hnat := congrArg BitVec.toNat (Except.ok.inj ((sStrlen_eq h).symm.trans hright.length))
    rw [BitVec.toNat_ofNat, BitVec.toNat_ofNat] at hnat
    omega
  · intro hshort
    have hmod : s.length % 256 = s.length := Nat.mod_eq_of_lt hshort
    have hstrlen := sStrlen_eq h
    rw [hmod] at hstrlen
    refine ⟨hstrlen, fun buf hbuf => ?_, fun msg => ⟨_, execlMessage_eq h msg, ?_⟩,
      fun msg sent img k hsent hrecv => ?_⟩
    · unfold firstOffset
      rw [hbuf, hstrlen, BitVec.ofNat_add]
      rfl
    · exact congrArg (BitVec.ofNat 32) hmod
    · exact iff_of_true (execlMessage_nameLen_lt h hsent hrecv) hshort

end Length

/-- The length of "echo". -/
theorem sStrlen_right_echo : LengthRight (strMem [0x65, 0x63, 0x68, 0x6f]) 0
    [0x65, 0x63, 0x68, 0x6f] :=
  (sStrlen_right_iff (strMem [0x65, 0x63, 0x68, 0x6f]) 0 [0x65, 0x63, 0x68, 0x6f] (by decide)
    (by decide)).mpr (by decide)

/-- A string of 256 characters has the length 0. -/
theorem sStrlen_256 : ∃ mem s, IsStr mem 0 s ∧ s.length = 256 ∧ sStrlen mem 0 = .ok 0 ∧
    ¬ LengthRight mem 0 s := by
  have hlen : (List.replicate 256 (0x61 : Byte)).length = 256 := List.length_replicate
  have hstr : IsStr (strMem (List.replicate 256 0x61)) 0 (List.replicate 256 0x61) := by
    refine isStr_strMem (fun c hc => ?_) (by omega)
    rw [List.eq_of_mem_replicate hc]
    decide
  have hzero : sStrlen (strMem (List.replicate 256 0x61)) 0 = .ok 0 := by
    rw [sStrlen_eq hstr, hlen]
    rfl
  refine ⟨_, _, hstr, hlen, hzero, fun hright => ?_⟩
  have hsame := Except.ok.inj (hzero.symm.trans hright.length)
  rw [hlen] at hsame
  exact absurd hsame (by decide)

/-! ## `s_strcmp` -/

/-- A byte read through the first or the second pointer. -/
inductive StrRead where
  | s1 (a : Addr)
  | s2 (a : Addr)

/-- `*s1 - *s2`, of two `char`s that become `int`s, as an `s8`. -/
def strDiff (c1 c2 : Byte) : BitVec 8 := (c1.signExtend 32 - c2.signExtend 32).setWidth 8

/-- The loop of `s_strcmp` with every byte that it reads. -/
def sStrcmpLogLoop (mem : Mem) : ℕ → Addr → Addr → Logged StrRead Fault (BitVec 32)
  | 0, _, _ => lift (.error .spin)
  | fuel + 1, s1, s2 => do
    emit (.s1 s1)
    emit (.s2 s2)
    let res := strDiff (mem s1) (mem s2)
    let s2 := s2 + 1
    if res ≠ 0 then pure (res.signExtend 32)
    else do
      emit (.s1 s1)
      let c := mem s1
      let s1 := s1 + 1
      if c = 0 then pure (res.signExtend 32) else sStrcmpLogLoop mem fuel s1 s2

/-- `s_strcmp` (include/k_string.h:30-37) with every byte that it reads. -/
def sStrcmpLog (mem : Mem) (s1 s2 : Addr) : Logged StrRead Fault (BitVec 32) :=
  sStrcmpLogLoop mem (2 ^ 32) s1 s2

/-- The byte belongs to the string of `m` characters at `a`, or to that of `n` characters at
    `b`, or is the NUL behind it. -/
def StrRead.Within (a : Addr) (m : ℕ) (b : Addr) (n : ℕ) : StrRead → Prop
  | .s1 x => ∃ i ≤ m, x = a + BitVec.ofNat 32 i
  | .s2 x => ∃ i ≤ n, x = b + BitVec.ofNat 32 i

theorem setWidth_signExtend (c : Byte) : (c.signExtend 32).setWidth 8 = c := by
  ext i hi
  rw [BitVec.getElem_setWidth, BitVec.getLsbD_signExtend]
  simp [hi]
  omega

/-- The bits that are cut off do not matter. -/
theorem strDiff_eq (c1 c2 : Byte) : strDiff c1 c2 = c1 - c2 := by
  unfold strDiff
  rw [BitVec.sub_eq_add_neg, BitVec.setWidth_add _ _ (by omega),
    BitVec.setWidth_neg_of_le (by omega), setWidth_signExtend, setWidth_signExtend,
    ← BitVec.sub_eq_add_neg]

theorem signExtend_eq_zero_iff : ∀ r : BitVec 8, r.signExtend 32 = 0 ↔ r = 0 := by decide

section Compare

variable {mem : Mem} {a b : Addr} {s t : List Byte} {fuel m n : ℕ}

theorem within_first : (StrRead.s1 a).Within a m b n := ⟨0, Nat.zero_le m, by simp⟩

theorem within_second : (StrRead.s2 b).Within a m b n := ⟨0, Nat.zero_le n, by simp⟩

/-- The strings behind the first characters are part of the strings. -/
theorem StrRead.Within.succ {e : StrRead} (h : e.Within (a + 1) m (b + 1) n) :
    e.Within a (m + 1) b (n + 1) := by
  cases e with
  | s1 x =>
    obtain ⟨i, hi, rfl⟩ := h
    exact ⟨i + 1, Nat.succ_le_succ hi, add_one_add_ofNat a i⟩
  | s2 x =>
    obtain ⟨i, hi, rfl⟩ := h
    exact ⟨i + 1, Nat.succ_le_succ hi, add_one_add_ofNat b i⟩

/-- The loop computes what `sStrcmpLoop` does. -/
theorem sStrcmpLogLoop_result (fuel : ℕ) (a b : Addr) :
    (sStrcmpLogLoop mem fuel a b).result =
      (sStrcmpLoop mem fuel a b).map (BitVec.signExtend 32) := by
  induction fuel generalizing a b with
  | zero => rfl
  | succ fuel ih =>
    rw [sStrcmpLogLoop, sStrcmpLoop, emit_bind, emit_bind, strDiff_eq]
    by_cases hdiff : mem a - mem b ≠ 0
    · rw [if_pos hdiff, if_pos (Or.inl hdiff)]
      rfl
    · rw [if_neg hdiff, emit_bind]
      by_cases hnul : mem a = 0
      · rw [if_pos hnul, if_pos (Or.inr hnul)]
        rfl
      · rw [if_neg hnul, if_neg (not_or.mpr ⟨hdiff, hnul⟩)]
        exact ih (a + 1) (b + 1)

/-- The pointers meet the first end at the latest. -/
theorem sStrcmpLogLoop_within (hs : IsStr mem a s) (ht : IsStr mem b t)
    (hfuel : s.length < fuel) :
    ∀ e ∈ (sStrcmpLogLoop mem fuel a b).log, e.Within a s.length b t.length := by
  refine hs.walk (motive := fun fuel a s => ∀ t b, IsStr mem b t →
    ∀ e ∈ (sStrcmpLogLoop mem fuel a b).log, e.Within a s.length b t.length) ?_ ?_ hfuel t b ht
  · intro fuel a hnul t b ht
    rw [sStrcmpLogLoop]
    refine forall_log_emit within_first (forall_log_emit within_second ?_)
    by_cases hdiff : strDiff (mem a) (mem b) ≠ 0
    · rw [if_pos hdiff]
      exact List.forall_mem_nil _
    · rw [if_neg hdiff]
      refine forall_log_emit within_first ?_
      rw [if_pos hnul]
      exact List.forall_mem_nil _
  · intro fuel a s hc _ ih t b ht
    rw [sStrcmpLogLoop]
    refine forall_log_emit within_first (forall_log_emit within_second ?_)
    by_cases hdiff : strDiff (mem a) (mem b) ≠ 0
    · rw [if_pos hdiff]
      exact List.forall_mem_nil _
    · rw [if_neg hdiff]
      refine forall_log_emit within_first ?_
      rw [if_neg hc]
      intro e he
      -- the characters are the same, so the second string goes on too
      cases t with
      | nil =>
        have hnul : mem b = 0 := ht
        rw [strDiff_eq, not_not] at hdiff
        exact absurd (by bv_omega) hc
      | cons d t => exact (ih t (b + 1) ht.2.2 e he).succ

/-- `s_strcmp` returns, 0 for equal strings only, and reads neither string beyond its
    terminator. -/
theorem sStrcmp_zero_iff (mem : Mem) (a b : Addr) (s t : List Byte) (hs : IsStr mem a s)
    (ht : IsStr mem b t) :
    ∃ res, (sStrcmpLog mem a b).result = .ok res ∧ (res = 0 ↔ s = t) ∧
      ∀ e ∈ (sStrcmpLog mem a b).log, e.Within a s.length b t.length := by
  obtain ⟨r, hr, hiff⟩ := sStrcmp_eq hs ht
  refine ⟨r.signExtend 32, ?_, ?_, sStrcmpLogLoop_within hs ht hs.length_lt⟩
  · have hr : sStrcmpLoop mem (2 ^ 32) a b = .ok r := hr
    unfold sStrcmpLog
    rw [sStrcmpLogLoop_result, hr]
    rfl
  · rw [signExtend_eq_zero_iff, hiff]

end Compare

/-- Characters of both signs. -/
theorem sStrcmp_zero_signs :
    ∃ res, (sStrcmpLog (strMem [0x80, 0, 0x7f]) 0 2).result = .ok res ∧
      (res = 0 ↔ ([0x80] : List Byte) = [0x7f]) ∧
      ∀ e ∈ (sStrcmpLog (strMem [0x80, 0, 0x7f]) 0 2).log, e.Within 0 1 2 1 :=
  sStrcmp_zero_iff (strMem [0x80, 0, 0x7f]) 0 2 [0x80] [0x7f] (by decide) (by decide)

end SimpleOs
