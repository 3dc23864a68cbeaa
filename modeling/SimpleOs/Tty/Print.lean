import SimpleOs.Lib.CString
import SimpleOs.Kernel.Progress
import SimpleOs.Kernel.IpcRuns
import SimpleOs.Mm.Outcome

/-!
# Printing

Model of the three system calls that print what a user pointer points to:
`sys_write` with `tty_write` (syscall.c:94-98, tty/tty.c:197-203),
`sys_app_print` and `sys_printk` (syscall.c:131-198). The result of a call is
what it prints; how a console shows a character is left out.

`sys_printk` and `sys_app_print` translate the pointer with `va2la`, `sys_write`
does not.

* `write_agrees_iff`: for which processes the three agree.
-/

namespace SimpleOs

open ByteMem

/-! ## The calls -/

/-- `Tty` (include/tty.h:11-18), as far as printing goes. -/
structure Tty where
  ready : BitVec 32
  console : Addr

/-- `tty_table`. -/
abbrev TtyTable := ℤ → Tty

/-- Characters on a console. -/
structure Printed where
  console : Addr
  chars : List Byte
  deriving DecidableEq

/-- The loop of `tty_write` (tty/tty.c:197-203). -/
def ttyWriteChars (tty : Tty) (mem : Mem) (buf : Addr) : ℕ → List Byte
  | 0 => []
  | n + 1 =>
    if tty.ready = 1 then mem buf :: ttyWriteChars tty mem (buf + 1) n
    else ttyWriteChars tty mem (buf + 1) n

/-- `tty_write(tty, buf, len)`. -/
def ttyWrite (tty : Tty) (mem : Mem) (buf : Addr) (len : ℤ) : Printed :=
  ⟨tty.console, ttyWriteChars tty mem buf len.toNat⟩

/-- `sys_write(buf, len, _, proc)` (syscall.c:94-98). -/
def sysWrite (k : Machine) (ttyTable : TtyTable) (buf : Addr) (len : ℤ) (proc : Pid) : Printed :=
  ttyWrite (ttyTable (k.procTable proc).ttyIndex) k.mem buf len

/-- `MAG_CH_PANIC` and `MAG_CH_ASSERT` (include/type.h:14-15). -/
abbrev MAG_CH_PANIC : Byte := 2
abbrev MAG_CH_ASSERT : Byte := 3

/-- `while((ch = *p++) != 0)` of `sys_printk` (syscall.c:179-184). -/
def printkChars (mem : Mem) : ℕ → Addr → Except Fault (List Byte)
  | 0, _ => .error .spin
  | fuel + 1, p =>
    if mem p ≠ 0 then do
      let chars ← printkChars mem fuel (p + 1)
      if mem p = MAG_CH_PANIC ∨ mem p = MAG_CH_ASSERT then .ok chars
      else .ok (mem p :: chars)
    else .ok []

/-- `sys_printk(_, _, s, proc)` (syscall.c:143-198). A string that begins with a
    magic character fills the screen and halts, and so does the string for a
    negative `k_reenter`. -/
def sysPrintk (k : Machine) (ttyTable : TtyTable) (s : Addr) (proc : Pid) :
    Except Fault Printed := do
  let p ← if k.kReenter = 0 then va2la k (proc2pid proc) s
    else if k.kReenter > 0 then .ok s
    else .error (.panic "k_reenter is incorrect for unknown reason")
  if k.mem p = MAG_CH_PANIC ∨ (k.mem p = MAG_CH_ASSERT ∧ k.readyProcess.val < NR_TASKS) then
    .error (.panic "hlt")
  else do
    let chars ← printkChars k.mem (2 ^ 32) p
    .ok ⟨(ttyTable (k.procTable proc).ttyIndex).console, chars⟩

/-- The characters of `s32_print(s, …)` (io/k_stdio.c:19-30). -/
def s32Chars (mem : Mem) : ℕ → Addr → Except Fault (List Byte)
  | 0, _ => .error .spin
  | fuel + 1, s =>
    if mem s ≠ 0 then do
      let chars ← s32Chars mem fuel (s + 1)
      .ok (mem s :: chars)
    else .ok []

/-- `fail string`. -/
def failString : List Byte :=
  [0x66, 0x61, 0x69, 0x6c, 0x20, 0x73, 0x74, 0x72, 0x69, 0x6e, 0x67]

/-- `sys_app_print(_, _, s, proc)` (syscall.c:131-141): what goes to line 20 of
    the screen. -/
def sysAppPrint (k : Machine) (s : Addr) (proc : Pid) : Except Fault (List Byte) :=
  if k.kReenter = 0 then do
    let p ← va2la k (proc2pid proc) s
    s32Chars k.mem (2 ^ 32) p
  else if k.kReenter > 0 then s32Chars k.mem (2 ^ 32) s
  else .ok failString

/-! ## What they print -/

/-- The `n` bytes at `a`. -/
def bytesAt (mem : Mem) (a : Addr) (n : ℕ) : List Byte :=
  (List.range n).map fun i => mem (a + BitVec.ofNat 32 i)

theorem bytesAt_succ (mem : Mem) (a : Addr) (n : ℕ) :
    bytesAt mem a (n + 1) = mem a :: bytesAt mem (a + 1) n := by
  have hzero : a + BitVec.ofNat 32 0 = a := by simp
  unfold bytesAt
  rw [List.range_succ_eq_map, List.map_cons, List.map_map, hzero]
  congr 1
  apply List.map_congr_left
  intro i _
  exact congrArg mem (add_one_add_ofNat a i).symm

theorem ttyWriteChars_eq {tty : Tty} (h : tty.ready = 1) (mem : Mem) (buf : Addr) (n : ℕ) :
    ttyWriteChars tty mem buf n = bytesAt mem buf n := by
  induction n generalizing buf with
  | zero => rfl
  | succ n ih => rw [ttyWriteChars, if_pos h, ih, bytesAt_succ]

theorem ttyWriteChars_not_ready {tty : Tty} (h : tty.ready ≠ 1) (mem : Mem) (buf : Addr)
    (n : ℕ) : ttyWriteChars tty mem buf n = [] := by
  induction n generalizing buf with
  | zero => rfl
  | succ n ih => rw [ttyWriteChars, if_neg h, ih]

theorem bytesAt_str {mem : Mem} {a : Addr} {s : List Byte} (h : IsStr mem a s) :
    bytesAt mem a s.length = s := by
  induction s generalizing a with
  | nil => rfl
  | cons c s ih =>
    rw [List.length_cons, bytesAt_succ, ih h.2.2, h.1]

/-- A character that `sys_printk` does not print. -/
def Magic (c : Byte) : Prop := c = MAG_CH_PANIC ∨ c = MAG_CH_ASSERT

instance (c : Byte) : Decidable (Magic c) := inferInstanceAs (Decidable (_ ∨ _))

theorem printkChars_eq {mem : Mem} {a : Addr} {s : List Byte} (h : IsStr mem a s) {fuel : ℕ}
    (hfuel : s.length < fuel) :
    printkChars mem fuel a = .ok (s.filter fun c => ¬ Magic c) := by
  refine h.walk (motive := fun fuel a s => printkChars mem fuel a =
    .ok (s.filter fun c => ¬ Magic c)) ?_ ?_ hfuel
  · intro fuel a hnul
    rw [printkChars, if_neg (by simp [hnul])]
    rfl
  · intro fuel a s hne _ ih
    rw [printkChars, if_pos hne, ih]
    by_cases hm : Magic (mem a)
    · rw [List.filter_cons_of_neg (by simpa using hm)]
      exact if_pos hm
    · rw [List.filter_cons_of_pos (by simpa using hm)]
      exact if_neg hm

theorem s32Chars_eq {mem : Mem} {a : Addr} {s : List Byte} (h : IsStr mem a s) {fuel : ℕ}
    (hfuel : s.length < fuel) : s32Chars mem fuel a = .ok s := by
  refine h.walk (motive := fun fuel a s => s32Chars mem fuel a = .ok s) ?_ ?_ hfuel
  · intro fuel a hnul
    rw [s32Chars, if_neg (by simp [hnul])]
  · intro fuel a s hne _ ih
    rw [s32Chars, if_pos hne, ih]
    rfl

/-! ## When they agree -/

/-- `sys_write` of the process `p` prints the bytes that its pointer denotes, and
    the string `s` as `sys_printk` and `sys_app_print` do, wherever it is. -/
structure WriteAgrees (k : Machine) (ttyTable : TtyTable) (p : Pid) (s : List Byte) : Prop where
  bytes : ∀ (mem : Mem) (buf : Addr) (len : ℤ),
    (sysWrite { k with mem := mem } ttyTable buf len p).chars =
      bytesAt mem (linear k.procTable p buf) len.toNat
  printk : ∀ (mem : Mem) (buf : Addr), IsStr mem (linear k.procTable p buf) s →
    sysPrintk { k with mem := mem } ttyTable buf p =
      .ok (sysWrite { k with mem := mem } ttyTable buf s.length p)
  appPrint : ∀ (mem : Mem) (buf : Addr), IsStr mem (linear k.procTable p buf) s →
    sysAppPrint { k with mem := mem } buf p =
      .ok (sysWrite { k with mem := mem } ttyTable buf s.length p).chars

section

variable {k : Machine} {ttyTable : TtyTable} {p : Pid} {s : List Byte}

theorem sysWrite_eq (hready : (ttyTable (k.procTable p).ttyIndex).ready = 1) (mem : Mem)
    (buf : Addr) (len : ℤ) :
    sysWrite { k with mem := mem } ttyTable buf len p =
      ⟨(ttyTable (k.procTable p).ttyIndex).console, bytesAt mem buf len.toNat⟩ := by
  unfold sysWrite ttyWrite
  rw [ttyWriteChars_eq hready]

/-- What `sys_printk` prints on behalf of a user. -/
theorem sysPrintk_eq (ttyTable : TtyTable) (hk : k.kReenter = 0)
    (hflat : NativeFlat k.procTable) {buf : Addr} (hs : IsStr k.mem (linear k.procTable p buf) s) :
    sysPrintk k ttyTable buf p = .error (.panic "hlt") ∨
      sysPrintk k ttyTable buf p =
        .ok ⟨(ttyTable (k.procTable p).ttyIndex).console, s.filter fun c => ¬ Magic c⟩ := by
  unfold sysPrintk
  rw [if_pos hk, va2la_ok hflat]
  simp only [bind, Except.bind]
  split_ifs with hmagic
  · exact .inl rfl
  · right
    rw [printkChars_eq hs hs.length_lt]

/-- The first character decides about the panic. -/
theorem sysPrintk_plain (ttyTable : TtyTable) (hk : k.kReenter = 0)
    (hflat : NativeFlat k.procTable) {buf : Addr} (hs : IsStr k.mem (linear k.procTable p buf) s)
    (hplain : ∀ c ∈ s, ¬ Magic c) :
    sysPrintk k ttyTable buf p = .ok ⟨(ttyTable (k.procTable p).ttyIndex).console, s⟩ := by
  have hfirst : ¬ Magic (k.mem (linear k.procTable p buf)) := by
    cases s with
    | nil =>
      have hnul : k.mem (linear k.procTable p buf) = 0 := hs
      rw [hnul]
      decide
    | cons c s =>
      rw [hs.1]
      exact hplain c (List.mem_cons_self ..)
  have hfilter : s.filter (fun c => ¬ Magic c) = s := by
    rw [List.filter_eq_self]
    intro c hc
    simpa using hplain c hc
  unfold sysPrintk
  rw [if_pos hk, va2la_ok hflat]
  simp only [bind, Except.bind]
  rw [if_neg fun hc => hfirst (hc.imp_right And.left), printkChars_eq hs hs.length_lt, hfilter]

theorem sysAppPrint_eq (hk : k.kReenter = 0) (hflat : NativeFlat k.procTable) {buf : Addr}
    (hs : IsStr k.mem (linear k.procTable p buf) s) : sysAppPrint k buf p = .ok s := by
  unfold sysAppPrint
  rw [if_pos hk, va2la_ok hflat]
  exact s32Chars_eq hs hs.length_lt

/-- The pointer that `sys_write` uses is the one that the others translate to
    only in a segment with base 0. -/
theorem WriteAgrees.condition (hk : k.kReenter = 0) (hflat : NativeFlat k.procTable)
    (h0 : ∀ c ∈ s, c ≠ 0) (hlen : s.length < 2 ^ 32) (h : WriteAgrees k ttyTable p s) :
    ldtSegLinear (k.procTable p).ldtData = 0 ∧
      (ttyTable (k.procTable p).ttyIndex).ready = 1 ∧ ∀ c ∈ s, ¬ Magic c := by
  have hready : (ttyTable (k.procTable p).ttyIndex).ready = 1 := by
    by_contra hne
    have hbytes := h.bytes k.mem 0 1
    unfold sysWrite ttyWrite at hbytes
    rw [ttyWriteChars_not_ready hne] at hbytes
    exact absurd hbytes (by simp [bytesAt])
  have hbase : ldtSegLinear (k.procTable p).ldtData = 0 := by
    by_contra hne
    -- a memory that is different at the two addresses
    have hbytes := h.bytes (fun a => if a = 0 then 1 else 0) 0 1
    rw [sysWrite_eq hready] at hbytes
    have hbyte : (1 : Byte) = if ldtSegLinear (k.procTable p).ldtData = 0 then 1 else 0 := by
      simpa [bytesAt, linear] using hbytes
    rw [if_neg hne] at hbyte
    exact absurd hbyte (by decide)
  refine ⟨hbase, hready, fun c hc hmagic => ?_⟩
  have hlinear : linear k.procTable p 0 = 0 := by
    rw [linear, hbase]
    rfl
  have hstr : IsStr (strMem s) (linear k.procTable p 0) s := by
    rw [hlinear]
    exact isStr_strMem h0 hlen
  have hprintk := h.printk (strMem s) 0 hstr
  rw [sysWrite_eq hready] at hprintk
  have hbytes : bytesAt (strMem s) 0 (s.length : ℤ).toNat = s := by
    rw [Int.toNat_natCast]
    rw [hlinear] at hstr
    exact bytesAt_str hstr
  rw [hbytes] at hprintk
  rcases sysPrintk_eq (k := { k with mem := strMem s }) ttyTable hk hflat hstr with hpanic | hok
  · rw [hpanic] at hprintk
    cases hprintk
  · rw [hok] at hprintk
    have hfilter := congrArg Printed.chars (Except.ok.inj hprintk)
    have hself := List.filter_eq_self.mp hfilter c hc
    exact (of_decide_eq_true hself) hmagic

/-- The three calls agree for the processes whose data segment has base 0, on a
    tty that is ready, on strings without magic characters, and on nothing
    else. -/
theorem write_agrees_iff (hk : k.kReenter = 0) (hflat : NativeFlat k.procTable)
    (h0 : ∀ c ∈ s, c ≠ 0) (hlen : s.length < 2 ^ 32) :
    WriteAgrees k ttyTable p s ↔ ldtSegLinear (k.procTable p).ldtData = 0 ∧
      (ttyTable (k.procTable p).ttyIndex).ready = 1 ∧ ∀ c ∈ s, ¬ Magic c := by
  refine ⟨fun h => h.condition hk hflat h0 hlen, fun hc => ?_⟩
  obtain ⟨hbase, hready, hplain⟩ := hc
  have hlinear : ∀ buf, linear k.procTable p buf = buf := by
    intro buf
    rw [linear, hbase]
    exact BitVec.zero_add buf
  have hstr : ∀ mem buf, IsStr mem (linear k.procTable p buf) s →
      bytesAt mem buf (s.length : ℤ).toNat = s := by
    intro mem buf h
    rw [hlinear] at h
    rw [Int.toNat_natCast]
    exact bytesAt_str h
  refine ⟨fun mem buf len => ?_, fun mem buf h => ?_, fun mem buf h => ?_⟩
  · rw [sysWrite_eq hready, hlinear]
  · rw [sysPrintk_plain (k := { k with mem := mem }) ttyTable hk hflat h hplain,
      sysWrite_eq hready, hstr mem buf h]
  · rw [sysAppPrint_eq (k := { k with mem := mem }) hk hflat h, sysWrite_eq hready,
      hstr mem buf h]

end

/-- INIT prints `ok`. -/
theorem write_agrees_iff_init :
    WriteAgrees (bootMachine sampleImage) (fun _ => ⟨1, 0⟩) INIT [0x6f, 0x6b] := by
  have hflat := (initProc_quiescent sampleImage).flat
  have hbase : ldtSegLinear ((bootMachine sampleImage).procTable INIT).ldtData = 0 :=
    hflat INIT (by decide)
  exact (write_agrees_iff (k := bootMachine sampleImage) rfl hflat (by decide) (by simp)).mpr
    ⟨hbase, rfl, by decide⟩

/-- The table behind a fork of INIT into slot 7. -/
def forkedMachine : Machine :=
  { bootMachine sampleImage with procTable := forkTable (initProc sampleImage) INIT 7 }

/-- The child writes: its buffer is at `0xa00000`, and what is printed is at 0. -/
theorem child_writes_other_bytes :
    ¬ WriteAgrees forkedMachine (fun _ => ⟨1, 0⟩) 7 [0x6f, 0x6b] := by
  intro h
  have hbytes := h.bytes (fun a => if a = 0 then 1 else 0) 0 1
  exact absurd hbytes (by decide)

end SimpleOs
