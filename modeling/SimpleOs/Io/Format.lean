import SimpleOs.Io.Itoa
import SimpleOs.Lib.CString

/-!
# Formatted output

`s32_vsprintf`, `s32_sprintf` and `s32_printf` (io/k_stdio.c:202-314, io/k_stdio_k.c:10-69) have
three copies of one loop. They differ in how they come to the next argument, in the conversion
`%c`, which only the first has, and in the buffer: `s32_printf` has one of its own, of 256
characters.

The format, the arguments and the strings for `%s` lie in a memory that the loop only reads; the
buffer is apart from them. The log has the offsets in the format that are read. No string in
a memory of 32 bits is longer than it, which bounds the loops.

* `formatLoop_spec`: the loop appends the expansion of the format, and reads up to its NUL.
* `formatLoop_dangling`: a format that ends inside a conversion.
-/

namespace SimpleOs

open ByteMem Logged Numeral Overlay

/-! ## The loop -/

/-- What has been written: where `p` is, and the buffer. -/
structure Written where
  p : ℕ
  str : Text

/-- `*p++ = c`, in a buffer with `room` characters. -/
def appendByte (room : Option ℕ) (w : Written) (c : Byte) : Except TextFault Written :=
  if room.all (w.p < ·) then .ok ⟨w.p + 1, Function.update w.str w.p c⟩
  else .error (.overflow w.p)

/-- `while(*str_ptr) *p++ = *str_ptr++`. -/
def copyChars (room : Option ℕ) (src : ℕ → Byte) : ℕ → ℕ → Written → Except TextFault Written
  | 0, _, _ => .error .endless
  | fuel + 1, j, w =>
    if src j ≠ 0 then do
      let w ← appendByte room w (src j)
      copyChars room src fuel (j + 1) w
    else .ok w

/-- What the copies of the loop have of their own: the arguments, the conversion `%c`, and
    the size of a local buffer. -/
structure Formatter (α : Type) where
  content : α → BitVec 32
  next : α → α
  chars : Bool
  room : Option ℕ

/-- `switch (*fmt)`. -/
def convert {α : Type} (f : Formatter α) (mem : Mem) (c : Byte) (content : BitVec 32)
    (w : Written) : Except TextFault Written :=
  if c = charByte 'c' ∧ f.chars = true then appendByte f.room w (content.setWidth 8)
  else if c = charByte 'd' then do
    let str ← (s32ItoaText content (fun _ => 0) 10).result
    copyChars f.room str (2 ^ 32) 0 w
  else if c = charByte 'x' then do
    let str ← (s32ItoaText content (fun _ => 0) 16).result
    copyChars f.room str (2 ^ 32) 0 w
  else if c = charByte 's' then
    copyChars f.room (fun j => mem (content + BitVec.ofNat 32 j)) (2 ^ 32) 0 w
  else .ok w

/-- `*(fmt + i)`, with the offset in the log. -/
def readFormat (mem : Mem) (fmt : Addr) (i : ℕ) : Logged ℕ TextFault Byte := do
  emit i
  pure (mem (fmt + BitVec.ofNat 32 i))

/-- `for (; *fmt ; ++fmt)`, from the offset `i` on. Behind a `%` the body moves on to the
    next character, whatever it is, and the header moves on from there. -/
def formatLoop {α : Type} (f : Formatter α) (mem : Mem) (fmt : Addr) :
    ℕ → ℕ → α → Written → Logged ℕ TextFault Written
  | 0, _, _, _ => lift (.error .endless)
  | fuel + 1, i, arg, w => do
    let c ← readFormat mem fmt i
    if c = 0 then pure w
    else if c ≠ charByte '%' then do
      let w ← lift (appendByte f.room w c)
      formatLoop f mem fmt fuel (i + 1) arg w
    else do
      let d ← readFormat mem fmt (i + 1)
      let w ← lift (convert f mem d (f.content arg) w)
      formatLoop f mem fmt fuel (i + 2) (f.next arg) w

/-! ## The three functions -/

/-- The loop of `s32_vsprintf`: a byte pointer goes from argument to argument. -/
def vsprintfFormatter (mem : Mem) : Formatter Addr where
  content arg := readWord mem arg
  next arg := arg + 4
  chars := true
  room := none

/-- The loop of `s32_sprintf`: the argument with the number `i` lies `i` words behind `fmt`
    on the stack, at `frame`. -/
def sprintfFormatter (mem : Mem) (frame : Addr) : Formatter ℕ where
  content i := readWord mem (frame + BitVec.ofNat 32 (4 * i))
  next i := i + 1
  chars := false
  room := none

/-- The loop of `s32_printf`, with `char buf[256]`. -/
def printfFormatter (mem : Mem) (frame : Addr) : Formatter ℕ :=
  { sprintfFormatter mem frame with room := some 256 }

/-- `s32_vsprintf(str_buf, fmt, ap)` (io/k_stdio.c:202-259): what it returns, and the
    buffer. -/
def s32VsprintfText (mem : Mem) (str : Text) (fmt ap : Addr) : Logged ℕ TextFault (ℤ × Text) := do
  let w ← formatLoop (vsprintfFormatter mem) mem fmt (2 ^ 32) 0 ap ⟨0, str⟩
  pure ((w.p : ℤ) - 1, Function.update w.str w.p 0)

/-- `s32_sprintf(str_buf, fmt, …)` (io/k_stdio.c:261-314). -/
def s32SprintfText (mem : Mem) (str : Text) (fmt frame : Addr) :
    Logged ℕ TextFault (ℤ × Text) := do
  let w ← formatLoop (sprintfFormatter mem frame) mem fmt (2 ^ 32) 0 1 ⟨0, str⟩
  pure ((w.p : ℤ) - 1, Function.update w.str w.p 0)

/-- `s32_printf(fmt, …)` (io/k_stdio_k.c:10-69): what it returns, and the characters that it
    passes to `write`. -/
def s32PrintfText (mem : Mem) (buf : Text) (fmt frame : Addr) :
    Logged ℕ TextFault (ℤ × List Byte) := do
  let w ← formatLoop (printfFormatter mem frame) mem fmt (2 ^ 32) 0 1 ⟨0, buf⟩
  pure (0, (List.range w.p).map w.str)

/-! ## Formats -/

inductive Piece where
  | lit (c : Byte)
  | conv (c : Byte)
  deriving DecidableEq

/-- The pieces of a format; `none` when it ends inside a conversion. -/
def pieces : List Byte → Option (List Piece)
  | [] => some []
  | [c] => if c = charByte '%' then none else some [.lit c]
  | c :: d :: fmt =>
    if c = charByte '%' then (pieces fmt).map (.conv d :: ·)
    else (pieces (d :: fmt)).map (.lit c :: ·)

/-- The text of a format, when `conv` is the text of a conversion and its argument. Every
    conversion takes an argument. -/
def expand (conv : Byte → BitVec 32 → List Byte) : (ℕ → BitVec 32) → List Piece → List Byte
  | _, [] => []
  | args, .lit c :: ps => c :: expand conv args ps
  | args, .conv c :: ps => conv c (args 0) ++ expand conv (fun k => args (k + 1)) ps

/-- The text of a conversion: of a number without its sign, and of a conversion that is not
    known nothing. -/
def convText (chars : Bool) (mem : Mem) (c : Byte) (content : BitVec 32) : List Byte :=
  if c = charByte 'c' ∧ chars = true then [content.setWidth 8]
  else if c = charByte 'd' then numeralText 10 content.toNat
  else if c = charByte 'x' then numeralText 16 content.toNat
  else if c = charByte 's' then stringAt mem content
  else []

/-- The arguments from `arg` on. -/
def Formatter.args {α : Type} (f : Formatter α) (arg : α) (k : ℕ) : BitVec 32 :=
  f.content (f.next^[k] arg)

theorem pieces_percent (d : Byte) (fmt : List Byte) :
    pieces (charByte '%' :: d :: fmt) = (pieces fmt).map (.conv d :: ·) := if_pos rfl

theorem pieces_lit {c : Byte} (hc : c ≠ charByte '%') (fmt : List Byte) :
    pieces (c :: fmt) = (pieces fmt).map (.lit c :: ·) := by
  cases fmt with
  | nil => exact if_neg hc
  | cons d fmt => exact if_neg hc

/-! ## Appending -/

section Appending

variable {room : Option ℕ} {w : Written} {l t : List Byte} {src : ℕ → Byte}

/-- The characters of a list, one after the other. -/
def appendAll (room : Option ℕ) (w : Written) (l : List Byte) : Except TextFault Written :=
  l.foldlM (appendByte room) w

theorem appendAll_cons (c : Byte) :
    appendAll room w (c :: l) = appendByte room w c >>= fun w => appendAll room w l :=
  List.foldlM_cons ..

theorem appendAll_append :
    appendAll room w (l ++ t) = appendAll room w l >>= fun w => appendAll room w t :=
  List.foldlM_append ..

theorem appendByte_fits (h : ∀ n ∈ room, w.p < n) (c : Byte) :
    appendByte room w c = .ok ⟨w.p + 1, Function.update w.str w.p c⟩ := by
  refine if_pos ?_
  cases room with
  | none => rfl
  | some n => exact decide_eq_true (h n rfl)

theorem appendAll_fits (h : ∀ n ∈ room, w.p + l.length ≤ n) :
    appendAll room w l = .ok ⟨w.p + l.length, put w.str w.p l⟩ := by
  induction l generalizing w with
  | nil =>
    rw [put_nil]
    rfl
  | cons c l ih =>
    have hlt : ∀ n ∈ room, w.p < n := by
      intro n hn
      have hle := h n hn
      rw [List.length_cons] at hle
      omega
    rw [appendAll_cons, appendByte_fits hlt, put_cons]
    show appendAll room ⟨w.p + 1, _⟩ l = _
    rw [ih]
    · congr 2
      show w.p + 1 + l.length = w.p + (c :: l).length
      rw [List.length_cons]
      omega
    · intro n hn
      have hle := h n hn
      rw [List.length_cons] at hle
      show w.p + 1 + l.length ≤ n
      omega

/-- The first character for which there is no room. -/
theorem appendAll_overflow {n : ℕ} (hw : w.p ≤ n) (h : n < w.p + l.length) :
    appendAll (some n) w l = .error (.overflow n) := by
  induction l generalizing w with
  | nil =>
    rw [List.length_nil] at h
    omega
  | cons c l ih =>
    rw [List.length_cons] at h
    rw [appendAll_cons]
    by_cases hfull : w.p = n
    · have hbyte : appendByte (some n) w c = .error (.overflow w.p) := by
        refine if_neg ?_
        show ¬ decide (w.p < n) = true
        simp [hfull]
      rw [hbyte, hfull]
      rfl
    · have hlt : ∀ m ∈ some n, w.p < m := by
        intro m hm
        rw [← Option.some.inj hm]
        omega
      rw [appendByte_fits hlt]
      refine ih ?_ ?_
      · show w.p + 1 ≤ n
        omega
      · show n < w.p + 1 + l.length
        omega

/-- The characters of `l` from the offset `j` on, none of them NUL, and a NUL. -/
def TextStr (src : ℕ → Byte) : ℕ → List Byte → Prop
  | j, [] => src j = 0
  | j, c :: l => src j = c ∧ c ≠ 0 ∧ TextStr src (j + 1) l

theorem copyChars_eq {j fuel : ℕ} (hsrc : TextStr src j l) (hfuel : l.length < fuel) :
    copyChars room src fuel j w = appendAll room w l := by
  induction fuel generalizing j l w with
  | zero => omega
  | succ fuel ih =>
    unfold copyChars
    cases l with
    | nil =>
      have hnul : src j = 0 := hsrc
      rw [if_neg (not_not.mpr hnul)]
      rfl
    | cons c l =>
      obtain ⟨hc, hne, hrest⟩ := hsrc
      rw [List.length_cons] at hfuel
      rw [hc, if_pos hne, appendAll_cons]
      congr 1
      funext w
      exact ih hrest (by omega)

theorem textStr_put {f : ℕ → Byte} {j : ℕ} (hl : ∀ c ∈ l, c ≠ 0) :
    TextStr (put f j (l ++ [0])) j l := by
  induction l generalizing f j with
  | nil => exact put_head
  | cons c l ih =>
    obtain ⟨hc, hl⟩ := List.forall_mem_cons.mp hl
    refine ⟨put_head, hc, ?_⟩
    rw [List.cons_append, put_cons]
    exact ih hl

theorem textStr_mem {mem : Mem} {a : Addr} {j : ℕ} (h : IsStr mem (a + BitVec.ofNat 32 j) l) :
    TextStr (fun j => mem (a + BitVec.ofNat 32 j)) j l := by
  induction l generalizing j with
  | nil => exact h
  | cons c l ih =>
    refine ⟨h.1, h.2.1, ih ?_⟩
    rw [BitVec.ofNat_add, ← BitVec.add_assoc]
    exact h.2.2

end Appending

/-! ## One conversion -/

section Loop

variable {α : Type} {f : Formatter α} {mem : Mem} {fmt : Addr} {arg : α} {i fuel : ℕ} {c d : Byte}
  {w w' : Written} {l : List Byte} {ps : List Piece}

theorem copyNumber_eq (content : BitVec 32) {radix : BitVec 32} (hradix : radix = 10 ∨ radix = 16) :
    ((s32ItoaText content (fun _ => 0) radix).result >>= fun str =>
      copyChars f.room str (2 ^ 32) 0 w) =
        appendAll f.room w (numeralText radix.toNat content.toNat) := by
  have hword : radix.toNat = 10 ∨ radix.toNat = 16 :=
    hradix.imp (congrArg BitVec.toNat) (congrArg BitVec.toNat)
  have hlen := numeral_length_word content hword
  rw [(s32ItoaText_does content _ (by omega) (by omega)).result]
  refine copyChars_eq (textStr_put fun c hc => numeralText_ne_zero (by omega) (by omega) hc) ?_
  unfold numeralText
  rw [List.length_map]
  omega

theorem convert_eq (hnul : ∃ z, mem z = 0) (c : Byte) (content : BitVec 32) (w : Written) :
    convert f mem c content w = appendAll f.room w (convText f.chars mem c content) := by
  unfold convert convText
  by_cases hc : c = charByte 'c' ∧ f.chars = true
  · rw [if_pos hc, if_pos hc, appendAll_cons]
    cases appendByte f.room w (content.setWidth 8) with
    | ok w => rfl
    | error e => rfl
  rw [if_neg hc, if_neg hc]
  by_cases hd : c = charByte 'd'
  · rw [if_pos hd, if_pos hd]
    exact copyNumber_eq content (.inl rfl)
  rw [if_neg hd, if_neg hd]
  by_cases hx : c = charByte 'x'
  · rw [if_pos hx, if_pos hx]
    exact copyNumber_eq content (.inr rfl)
  rw [if_neg hx, if_neg hx]
  by_cases hs : c = charByte 's'
  · have hstr : IsStr mem (content + BitVec.ofNat 32 0) (stringAt mem content) := by
      have h := isStr_stringAt hnul content
      rwa [show content + BitVec.ofNat 32 0 = content by simp]
    rw [if_pos hs, if_pos hs]
    exact copyChars_eq (textStr_mem hstr) hstr.length_lt
  · rw [if_neg hs, if_neg hs]
    rfl

/-! ## One round -/

theorem readFormat_bind {β : Type} (k : Byte → Logged ℕ TextFault β)
    (hc : mem (fmt + BitVec.ofNat 32 i) = c) :
    readFormat mem fmt i >>= k = ⟨i :: (k c).log, (k c).result⟩ := by
  rw [← hc]
  rfl

/-- A round: what is read, what becomes of the buffer, and the rest of the loop. -/
def round (reads : List ℕ) (r : Except TextFault Written)
    (rest : Written → Logged ℕ TextFault Written) : Logged ℕ TextFault Written :=
  match r with
  | .ok w => ⟨reads ++ (rest w).log, (rest w).result⟩
  | .error e => ⟨reads, .error e⟩

theorem formatLoop_nul (hc : mem (fmt + BitVec.ofNat 32 i) = 0) :
    formatLoop f mem fmt (fuel + 1) i arg w = ⟨[i], .ok w⟩ := by
  rw [formatLoop, readFormat_bind _ hc, if_pos rfl]
  rfl

theorem formatLoop_lit (hc : mem (fmt + BitVec.ofNat 32 i) = c) (hne : c ≠ 0)
    (hlit : c ≠ charByte '%') : formatLoop f mem fmt (fuel + 1) i arg w =
      round [i] (appendByte f.room w c) (formatLoop f mem fmt fuel (i + 1) arg) := by
  rw [formatLoop, readFormat_bind _ hc, if_neg hne, if_pos hlit]
  cases appendByte f.room w c with
  | ok w => rfl
  | error e => rfl

theorem formatLoop_conv (hc : mem (fmt + BitVec.ofNat 32 i) = charByte '%')
    (hd : mem (fmt + BitVec.ofNat 32 (i + 1)) = d) : formatLoop f mem fmt (fuel + 1) i arg w =
      round [i, i + 1] (convert f mem d (f.content arg) w)
        (formatLoop f mem fmt fuel (i + 2) (f.next arg)) := by
  rw [formatLoop, readFormat_bind _ hc, if_neg (by decide), if_neg (not_not.mpr rfl),
    readFormat_bind _ hd]
  cases convert f mem d (f.content arg) w with
  | ok w => rfl
  | error e => rfl

/-! ## All rounds -/

/-- The loop has read no further than the offset `last`, and, if it has come to its end, has
    read there last. -/
structure StopsAt (last : ℕ) (t : Logged ℕ TextFault Written) : Prop where
  within : ∀ off ∈ t.log, off ≤ last
  stops : ∀ w, t.result = .ok w → t.log.getLast? = some last

/-- A round does what it does to the buffer and then the rest, and reads no further if the
    rest does not. -/
theorem round_spec {last : ℕ} {reads : List ℕ} {r : Except TextFault Written}
    {rest : Written → Logged ℕ TextFault Written} {g : Written → Except TextFault Written}
    (hreads : ∀ off ∈ reads, off ≤ last)
    (hrest : ∀ w, (rest w).result = g w ∧ StopsAt last (rest w)) :
    (round reads r rest).result = r >>= g ∧ StopsAt last (round reads r rest) := by
  cases r with
  | error e => exact ⟨rfl, hreads, fun _ h => by cases h⟩
  | ok w =>
    obtain ⟨hresult, hstops⟩ := hrest w
    refine ⟨hresult, fun off hoff => ?_, fun w' hw' => ?_⟩
    · rcases List.mem_append.mp hoff with hoff | hoff
      · exact hreads off hoff
      · exact hstops.within off hoff
    · show (reads ++ (rest w).log).getLast? = some last
      rw [List.getLast?_append, hstops.stops w' hw']
      rfl

/-- If a round and the rest come to an end, the rest has been read. -/
theorem round_ok {reads : List ℕ} {r : Except TextFault Written}
    {rest : Written → Logged ℕ TextFault Written} (h : (round reads r rest).result = .ok w') :
    ∃ w₁, (rest w₁).result = .ok w' ∧
      ∀ off ∈ (rest w₁).log, off ∈ (round reads r rest).log := by
  cases r with
  | error e => cases h
  | ok w₁ => exact ⟨w₁, h, fun off hoff => List.mem_append_right _ hoff⟩

theorem fmt_next (fmt : Addr) (i : ℕ) :
    fmt + BitVec.ofNat 32 i + 1 = fmt + BitVec.ofNat 32 (i + 1) := by
  rw [BitVec.add_assoc, BitVec.ofNat_add]
  rfl

/-- A format that does not end inside a conversion: the loop appends its text, and stops at
    the NUL. -/
theorem formatLoop_spec (hfmt : IsStr mem (fmt + BitVec.ofNat 32 i) l) (hps : pieces l = some ps)
    (hfuel : l.length < fuel) :
    (formatLoop f mem fmt fuel i arg w).result =
        appendAll f.room w (expand (convText f.chars mem) (f.args arg) ps) ∧
      StopsAt (i + l.length) (formatLoop f mem fmt fuel i arg w) := by
  induction fuel generalizing i arg w l ps with
  | zero => omega
  | succ fuel ih =>
    have hnul : ∃ z, mem z = 0 := ⟨_, hfmt.nul⟩
    cases l with
    | nil =>
      rw [formatLoop_nul hfmt, ← Option.some.inj hps]
      exact ⟨rfl, fun off hoff => (List.mem_singleton.mp hoff).le, fun _ _ => rfl⟩
    | cons c l =>
      obtain ⟨hc, hne, hrest⟩ := hfmt
      rw [List.length_cons] at hfuel
      rw [fmt_next] at hrest
      by_cases hlit : c = charByte '%'
      · subst hlit
        cases l with
        | nil => cases hps
        | cons d l =>
          obtain ⟨hd, _, hrest⟩ := hrest
          rw [fmt_next] at hrest
          rw [List.length_cons] at hfuel
          rw [pieces_percent] at hps
          obtain ⟨qs, hqs, rfl⟩ := Option.map_eq_some_iff.mp hps
          have hexpand : appendAll f.room w (expand (convText f.chars mem) (f.args arg)
              (.conv d :: qs)) = convert f mem d (f.content arg) w >>= fun w =>
                appendAll f.room w (expand (convText f.chars mem) (f.args (f.next arg)) qs) := by
            rw [convert_eq hnul, ← appendAll_append]
            rfl
          have hlast : i + (charByte '%' :: d :: l).length = i + 2 + l.length := by
            rw [List.length_cons, List.length_cons]
            omega
          rw [hexpand, hlast, formatLoop_conv hc hd]
          apply round_spec
          · simp
            omega
          · intro w'
            exact ih hrest hqs (by omega)
      · rw [pieces_lit hlit] at hps
        obtain ⟨qs, hqs, rfl⟩ := Option.map_eq_some_iff.mp hps
        have hexpand : appendAll f.room w (expand (convText f.chars mem) (f.args arg)
            (.lit c :: qs)) = appendByte f.room w c >>= fun w =>
              appendAll f.room w (expand (convText f.chars mem) (f.args arg) qs) :=
          appendAll_cons c
        have hlast : i + (c :: l).length = i + 1 + l.length := by
          rw [List.length_cons]
          omega
        rw [hexpand, hlast, formatLoop_lit hc hne hlit]
        apply round_spec
        · simp
          omega
        · intro w'
          exact ih hrest hqs (by omega)

/-- The header reads the character at which it begins. -/
theorem formatLoop_reads (hresult : (formatLoop f mem fmt fuel i arg w).result = .ok w') :
    i ∈ (formatLoop f mem fmt fuel i arg w).log := by
  cases fuel with
  | zero => cases hresult
  | succ fuel =>
    rw [formatLoop, readFormat_bind _ rfl]
    exact List.mem_cons_self

/-- A format that ends inside a conversion: if the loop comes to an end, it has read behind
    the NUL. -/
theorem formatLoop_dangling (hfmt : IsStr mem (fmt + BitVec.ofNat 32 i) l) (hps : pieces l = none)
    (hresult : (formatLoop f mem fmt fuel i arg w).result = .ok w') :
    ∃ off ∈ (formatLoop f mem fmt fuel i arg w).log, i + l.length < off := by
  induction fuel generalizing i arg w l with
  | zero => cases hresult
  | succ fuel ih =>
    cases l with
    | nil => cases hps
    | cons c l =>
      obtain ⟨hc, hne, hrest⟩ := hfmt
      rw [fmt_next] at hrest
      by_cases hlit : c = charByte '%'
      · subst hlit
        cases l with
        | nil =>
          -- the NUL is skipped like any other character behind the `%`
          rw [formatLoop_conv hc hrest] at hresult ⊢
          obtain ⟨w₁, hok, hlog⟩ := round_ok hresult
          refine ⟨i + 2, hlog _ (formatLoop_reads hok), ?_⟩
          rw [List.length_singleton]
          omega
        | cons d l =>
          obtain ⟨hd, _, hrest⟩ := hrest
          rw [fmt_next] at hrest
          rw [pieces_percent, Option.map_eq_none_iff] at hps
          rw [formatLoop_conv hc hd] at hresult ⊢
          obtain ⟨w₁, hok, hlog⟩ := round_ok hresult
          obtain ⟨off, hoff, hlt⟩ := ih hrest hps hok
          refine ⟨off, hlog off hoff, ?_⟩
          rw [List.length_cons, List.length_cons]
          omega
      · rw [pieces_lit hlit, Option.map_eq_none_iff] at hps
        rw [formatLoop_lit hc hne hlit] at hresult ⊢
        obtain ⟨w₁, hok, hlog⟩ := round_ok hresult
        obtain ⟨off, hoff, hlt⟩ := ih hrest hps hok
        refine ⟨off, hlog off hoff, ?_⟩
        rw [List.length_cons]
        omega

end Loop

end SimpleOs
