import SimpleOs.Lib.ByteMem

/-!
# Output

Model of `io/k_stdio.c`, which the kernel and its loader share: `s32_put_char`,
`s32_print`, `s32_itoa`, `s32_print_int`, `clear_line`, `h2c`, `p_dump_u8` and
`s32_sprintf`. The result of an output function is the list of the bytes that it
writes, in order, with their addresses; `Output.write` puts them into a memory.

The variable `cur_vb`, which `s32_print` sets and which decides nothing here, is left
out.
-/

namespace SimpleOs

open ByteMem

/-! ## Numbers and formats -/

/-- `digit[d]`. -/
def itoaDigit (d : ℕ) : Char := "0123456789ABCDEFGHIJKLMNOPQRSTUVWXYZ".toList.getD d ' '

/-- The loop `while(n)` of `s32_itoa`. A word has at most 32 digits. -/
def itoaLoop (radix : ℕ) : ℕ → ℕ → List Char
  | 0, _ => []
  | fuel + 1, n => if n ≠ 0 then itoaDigit (n % radix) :: itoaLoop radix fuel (n / radix) else []

/-- `s32_itoa(n, str, radix)` (io/k_stdio.c:74-114): the characters before the NUL. `n` is
    unsigned, so there is no sign, and the last loop reverses the digits. -/
def s32Itoa (n : BitVec 32) (radix : ℕ) : List Char :=
  if n = 0 then ['0'] else (itoaLoop radix 32 n.toNat).reverse

/-- An argument behind the format. -/
inductive FmtArg where
  | word (w : BitVec 32)
  | str (s : List Char)

/-- The loop of `s32_sprintf`: every conversion takes the next argument. A format that
    ends in `%` runs off its end and is not modelled. -/
def sprintfLoop : List Char → List FmtArg → List Char
  | [], _ => []
  | '%' :: c :: fmt, args =>
    (match c, args.head? with
      | 'd', some (.word w) => s32Itoa w 10
      | 'x', some (.word w) => s32Itoa w 16
      | 's', some (.str s) => s
      | _, _ => []) ++ sprintfLoop fmt args.tail
  | c :: fmt, args => c :: sprintfLoop fmt args

/-- `s32_sprintf(str_buf, fmt, …)` (io/k_stdio.c:261-314): the characters in the buffer
    before the NUL, and what it returns. -/
def s32Sprintf (fmt : String) (args : List FmtArg) : List Char × ℤ :=
  (sprintfLoop fmt.toList args, (sprintfLoop fmt.toList args).length - 1)

/-! ## The screen -/

/-- Bytes written, with their addresses. -/
abbrev Output := List (Addr × Byte)

/-- The memory behind an output. -/
def Output.write (out : Output) (mem : Mem) : Mem :=
  out.foldl (fun mem w => Function.update mem w.1 w.2) mem

/-- A `char`, and the bytes of a string literal. -/
def charByte (c : Char) : Byte := BitVec.ofNat 8 c.toNat
def strBytes (s : String) : List Byte := s.toList.map charByte

/-- `(u8*)(0xb8000+160*line)`. -/
def lineAddr (line : ℕ) : Addr := 0xb8000 + BitVec.ofNat 32 (160 * line)

/-- `s32_put_char` (io/k_stdio.c:13-16). -/
def s32PutChar (ch : Byte) (vb : Addr) : Output := [(vb, ch)]

/-- `s32_print(s, vb)` (io/k_stdio.c:19-30), for the string `s`. -/
def s32PrintStr : List Byte → Addr → Output
  | [], _ => []
  | c :: s, vb => s32PutChar c vb ++ s32PrintStr s (vb + 2)

/-- `s32_print_int(i, vb, radix)` (io/k_stdio.c:116-123). -/
def s32PrintInt (i : BitVec 32) (vb : Addr) (radix : ℕ) : Output :=
  s32PrintStr ((s32Itoa i radix).map charByte) vb

/-- `WHITE` (include/k_stdio.h:18). -/
abbrev WHITE : Byte := 7

/-- `clear_line(line_no)` (io/k_stdio.c:125-134). -/
def clearLine (lineNo : BitVec 8) : Output :=
  (List.range 80).flatMap fun x =>
    [(lineAddr lineNo.toNat + BitVec.ofNat 32 (2 * x), 0x20),
      (lineAddr lineNo.toNat + BitVec.ofNat 32 (2 * x + 1), WHITE)]

/-- One digit of `h2c`. -/
def h2cDigit (l : Byte) : Byte := if l ≤ 9 then l + 0x30 else l + 0x61 - 0xa

/-- `h2c(hex, ch)` (io/k_stdio.c:175-200): `ch[0]` and `ch[1]`. -/
def h2c (hex : Byte) : Byte × Byte := (h2cDigit (hex >>> 4), h2cDigit (hex &&& 0x0f))

/-- `p_dump_u8(buff, len)` (io/k_stdio.c:149-173). `len` is an `int`. -/
def pDump (mem : Mem) (buff : Addr) (len : BitVec 32) : Output :=
  (List.range len.toInt.toNat).flatMap fun i =>
    let h := mem (buff + BitVec.ofNat 32 i)
    s32PrintStr [(h2c h).1, (h2c h).2, 0x20] (lineAddr 0 + BitVec.ofNat 32 (6 * i))

end SimpleOs
