import SimpleOs.Io.Format
import SimpleOs.Io.Signed

/-!
# What the formatters print

`s32_vsprintf` and `s32_sprintf` return one less than the number of characters, and `%d` writes
its argument without a sign. `%c` is known to `s32_vsprintf` only. A `%` before the NUL takes
the scan behind it.

* `s32Vsprintf_differs`: what `s32_vsprintf` does, and that this is never the reference expansion
  together with its length.
* `formatters_agree_iff`: for which formats the three agree.
* `scans_inside_iff`: which formats are scanned up to their NUL.
-/

namespace SimpleOs

open ByteMem Logged Numeral Overlay

/-! ## The three results -/

/-- The arguments behind `ap`. -/
def argument (mem : Mem) (ap : Addr) (k : ℕ) : BitVec 32 :=
  readWord mem (ap + BitVec.ofNat 32 (4 * k))

/-- The arguments behind `fmt` on the stack. -/
def stackArgument (mem : Mem) (frame : Addr) (k : ℕ) : BitVec 32 := argument mem frame (k + 1)

theorem vsprintf_args (mem : Mem) (ap : Addr) :
    (vsprintfFormatter mem).args ap = argument mem ap := by
  have hnext (k : ℕ) : (· + 4)^[k] ap = ap + BitVec.ofNat 32 (4 * k) := by
    induction k with
    | zero => simp
    | succ k ih =>
      have hfour : BitVec.ofNat 32 (4 * (k + 1)) = BitVec.ofNat 32 (4 * k) + 4 := by
        rw [Nat.mul_add, BitVec.ofNat_add]
        rfl
      rw [Function.iterate_succ_apply', ih, hfour, BitVec.add_assoc]
  funext k
  show readWord mem ((· + 4)^[k] ap) = _
  rw [hnext]
  rfl

theorem sprintf_args (mem : Mem) (frame : Addr) :
    (sprintfFormatter mem frame).args 1 = stackArgument mem frame := by
  have hnext (k : ℕ) : (· + 1)^[k] 1 = k + 1 := by
    induction k with
    | zero => rfl
    | succ k ih => rw [Function.iterate_succ_apply', ih]
  funext k
  show readWord mem (frame + BitVec.ofNat 32 (4 * (· + 1)^[k] 1)) = _
  rw [hnext]
  rfl

theorem printf_args (mem : Mem) (frame : Addr) :
    (printfFormatter mem frame).args 1 = stackArgument mem frame := sprintf_args mem frame

section Results

variable {mem : Mem} {fmt ap frame : Addr} {str : Text} {l : List Byte} {ps : List Piece}

/-- The loop, from the first character on. -/
theorem format_spec {α : Type} (f : Formatter α) (hfmt : IsStr mem fmt l) (hps : pieces l = some ps)
    (arg : α) (str : Text) :
    (formatLoop f mem fmt (2 ^ 32) 0 arg ⟨0, str⟩).result =
        appendAll f.room ⟨0, str⟩ (expand (convText f.chars mem) (f.args arg) ps) ∧
      StopsAt l.length (formatLoop f mem fmt (2 ^ 32) 0 arg ⟨0, str⟩) := by
  have hstart : IsStr mem (fmt + BitVec.ofNat 32 0) l := by simpa using hfmt
  have hspec : _ ∧ StopsAt _ (formatLoop f mem fmt (2 ^ 32) 0 arg ⟨0, str⟩) :=
    formatLoop_spec hstart hps hfmt.length_lt
  rwa [Nat.zero_add] at hspec

/-- `*p='\0'` and `return p-str_buf - 1`. -/
theorem written_result (text : List Byte) (str : Text) :
    (Except.ok ⟨0 + text.length, put str 0 text⟩ : Except TextFault Written).map
        (fun w => ((w.p : ℤ) - 1, Function.update w.str w.p 0)) =
      .ok ((text.length : ℤ) - 1, put str 0 (text ++ [0])) := by
  show Except.ok (((0 + text.length : ℕ) : ℤ) - 1,
    Function.update (put str 0 text) (0 + text.length) 0) = _
  rw [put_append, put_singleton, Nat.zero_add]

theorem s32VsprintfText_result (hfmt : IsStr mem fmt l) (hps : pieces l = some ps) (str : Text)
    (ap : Addr) :
    (s32VsprintfText mem str fmt ap).result =
      .ok (((expand (convText true mem) (argument mem ap) ps).length : ℤ) - 1,
        put str 0 (expand (convText true mem) (argument mem ap) ps ++ [0])) := by
  have hspec := (format_spec (vsprintfFormatter mem) hfmt hps ap str).1
  rw [appendAll_fits (by intro n hn; cases hn), vsprintf_args] at hspec
  unfold s32VsprintfText
  rw [bind_pure_eq, hspec]
  exact written_result _ str

theorem s32SprintfText_result (hfmt : IsStr mem fmt l) (hps : pieces l = some ps) (str : Text)
    (frame : Addr) :
    (s32SprintfText mem str fmt frame).result =
      .ok (((expand (convText false mem) (stackArgument mem frame) ps).length : ℤ) - 1,
        put str 0 (expand (convText false mem) (stackArgument mem frame) ps ++ [0])) := by
  have hspec := (format_spec (sprintfFormatter mem frame) hfmt hps 1 str).1
  rw [appendAll_fits (by intro n hn; cases hn), sprintf_args] at hspec
  unfold s32SprintfText
  rw [bind_pure_eq, hspec]
  exact written_result _ str

/-- `s32_printf`, when its buffer is large enough. -/
theorem s32PrintfText_result (hfmt : IsStr mem fmt l) (hps : pieces l = some ps) (buf : Text)
    (frame : Addr)
    (hlen : (expand (convText false mem) (stackArgument mem frame) ps).length ≤ 256) :
    (s32PrintfText mem buf fmt frame).result =
      .ok (0, expand (convText false mem) (stackArgument mem frame) ps) := by
  have hspec := (format_spec (printfFormatter mem frame) hfmt hps 1 buf).1
  have hfits : ∀ n ∈ (printfFormatter mem frame).room,
      0 + (expand (convText false mem) (stackArgument mem frame) ps).length ≤ n := by
    intro n hn
    rw [← Option.some.inj hn]
    omega
  rw [printf_args] at hspec
  change _ = appendAll _ _ (expand (convText false mem) _ _) at hspec
  rw [appendAll_fits hfits] at hspec
  unfold s32PrintfText
  rw [bind_pure_eq, hspec]
  show Except.ok (0, (List.range (0 + _)).map (put buf 0 _)) = _
  rw [Nat.zero_add, map_put]

/-- And when it is not. -/
theorem s32PrintfText_overflow (hfmt : IsStr mem fmt l) (hps : pieces l = some ps) (buf : Text)
    (frame : Addr)
    (hlen : 256 < (expand (convText false mem) (stackArgument mem frame) ps).length) :
    (s32PrintfText mem buf fmt frame).result = .error (.overflow 256) := by
  have hspec := (format_spec (printfFormatter mem frame) hfmt hps 1 buf).1
  rw [printf_args] at hspec
  change _ = appendAll (some 256) _ (expand (convText false mem) _ _) at hspec
  rw [appendAll_overflow (Nat.zero_le 256) (by show 256 < 0 + _; omega)] at hspec
  unfold s32PrintfText
  rw [bind_pure_eq, hspec]
  rfl

end Results

/-! ## The reference expansion -/

/-- What a conversion stands for: `%d` for a signed number. -/
def referenceText (mem : Mem) (c : Byte) (content : BitVec 32) : List Byte :=
  if c = charByte 'c' then [content.setWidth 8]
  else if c = charByte 'd' then signedText content.toInt
  else if c = charByte 'x' then numeralText 16 content.toNat
  else if c = charByte 's' then stringAt mem content
  else []

/-- The text that a format stands for. -/
def reference (mem : Mem) (args : ℕ → BitVec 32) (ps : List Piece) : List Byte :=
  expand (referenceText mem) args ps

/-- A negative number is the argument of some `%d`. -/
def TakesNegative : (ℕ → BitVec 32) → List Piece → Prop
  | _, [] => False
  | args, .lit _ :: ps => TakesNegative args ps
  | args, .conv c :: ps =>
    (c = charByte 'd' ∧ (args 0).toInt < 0) ∨ TakesNegative (fun k => args (k + 1)) ps

/-- `s32_vsprintf` writes the text and a NUL, and returns the number of the characters. -/
def WritesReference (mem : Mem) (str : Text) (fmt ap : Addr) (ps : List Piece) : Prop :=
  (s32VsprintfText mem str fmt ap).result =
    .ok ((reference mem (argument mem ap) ps).length,
      put str 0 (reference mem (argument mem ap) ps ++ [0]))

section Reference

variable {mem : Mem} {fmt ap : Addr} {str : Text} {l : List Byte} {ps : List Piece} {c : Byte}
  {content : BitVec 32} {args : ℕ → BitVec 32}

theorem numeralText_head (n : ℕ) : ∃ d s, numeralText 10 n = d :: s ∧ d ≠ 0x2d := by
  have hnumeral : IsNumeral 10 n (numeral 10 n) := isNumeral_numeral (by omega) n
  obtain ⟨d, ds, hds⟩ := List.exists_cons_of_ne_nil hnumeral.ne_nil
  have hlt : d < 10 := hnumeral.digits d (by simp [hds])
  exact ⟨digitChar d, ds.map digitChar, by simp [numeralText, hds], (digitChar_ne d (by omega)).1⟩

theorem signedText_of_nonneg (h : 0 ≤ content.toInt) :
    signedText content.toInt = numeralText 10 content.toNat := by
  have hnat : content.toInt.natAbs = content.toNat := by
    rw [(toNat_of_nonneg h).2]
    rfl
  simp [signedText, Int.not_lt.mpr h, hnat]

theorem convText_reference (h : ¬ (c = charByte 'd' ∧ content.toInt < 0)) :
    convText true mem c content = referenceText mem c content := by
  unfold convText referenceText
  by_cases hd : c = charByte 'd'
  · have hnonneg : 0 ≤ content.toInt := by
      rw [not_and] at h
      exact Int.not_lt.mp (h hd)
    simp [hd, signedText_of_nonneg hnonneg, charByte]
  · simp [hd]

theorem convText_negative (h : content.toInt < 0) :
    Diverge (convText true mem (charByte 'd') content)
      (referenceText mem (charByte 'd') content) := by
  obtain ⟨d, s, hhead, hd⟩ := numeralText_head content.toNat
  refine ⟨[], d, 0x2d, s, numeralText 10 content.toInt.natAbs, hhead, ?_, hd⟩
  show signedText content.toInt = _
  simp [signedText, h]

/-- The texts are the same, or differ in a character. -/
theorem expand_reference (mem : Mem) (args : ℕ → BitVec 32) (ps : List Piece) :
    (¬ TakesNegative args ps ∧ expand (convText true mem) args ps = reference mem args ps) ∨
      (TakesNegative args ps ∧
        Diverge (expand (convText true mem) args ps) (reference mem args ps)) := by
  induction ps generalizing args with
  | nil => exact .inl ⟨not_false, rfl⟩
  | cons piece ps ih =>
    cases piece with
    | lit c =>
      rcases ih args with ⟨hno, heq⟩ | ⟨hneg, hdiv⟩
      · exact .inl ⟨hno, congrArg (c :: ·) heq⟩
      · exact .inr ⟨hneg, hdiv.after [c]⟩
    | conv c =>
      by_cases hd : c = charByte 'd' ∧ (args 0).toInt < 0
      · obtain ⟨rfl, hlt⟩ := hd
        exact .inr ⟨.inl ⟨rfl, hlt⟩, (convText_negative hlt).before _ _⟩
      · have hfirst : convText true mem c (args 0) = referenceText mem c (args 0) :=
          convText_reference hd
        rcases ih fun k => args (k + 1) with ⟨hno, heq⟩ | ⟨hneg, hdiv⟩
        · refine .inl ⟨not_or.mpr ⟨hd, hno⟩, ?_⟩
          show convText true mem c (args 0) ++ _ = referenceText mem c (args 0) ++ _
          rw [hfirst, heq]
          rfl
        · refine .inr ⟨.inr hneg, ?_⟩
          show Diverge (convText true mem c (args 0) ++ _) (referenceText mem c (args 0) ++ _)
          rw [hfirst]
          exact hdiv.after _

/-- The number that is returned is wrong, or a character. -/
theorem not_writesReference (hfmt : IsStr mem fmt l) (hps : pieces l = some ps) (str : Text)
    (ap : Addr) : ¬ WritesReference mem str fmt ap ps := by
  intro hwrites
  unfold WritesReference at hwrites
  rw [s32VsprintfText_result hfmt hps, Except.ok.injEq, Prod.mk.injEq] at hwrites
  obtain ⟨hlen, hbuf⟩ := hwrites
  rcases expand_reference mem (argument mem ap) ps with ⟨_, heq⟩ | ⟨_, hdiv⟩
  · rw [heq] at hlen
    omega
  · exact (hdiv.before [0] [0]).put_ne hbuf

end Reference

/-- For every format that does not end inside a conversion, and all arguments: `s32_vsprintf`
    writes a text, which is the reference expansion if and only if no `%d` has a negative
    argument, and returns one less than the number of its characters. So it never does what
    it should. -/
theorem s32Vsprintf_differs {mem : Mem} {fmt : Addr} {l : List Byte} {ps : List Piece}
    (hfmt : IsStr mem fmt l) (hps : pieces l = some ps) (str : Text) (ap : Addr) :
    ¬ WritesReference mem str fmt ap ps ∧
      ∃ text, (s32VsprintfText mem str fmt ap).result =
          .ok ((text.length : ℤ) - 1, put str 0 (text ++ [0])) ∧
        (text = reference mem (argument mem ap) ps ↔ ¬ TakesNegative (argument mem ap) ps) := by
  refine ⟨not_writesReference hfmt hps str ap, _, s32VsprintfText_result hfmt hps str ap, ?_⟩
  rcases expand_reference mem (argument mem ap) ps with ⟨hno, heq⟩ | ⟨hneg, hdiv⟩
  · exact iff_of_true heq hno
  · exact iff_of_false hdiv.ne (not_not.mpr hneg)

/-- An empty format: -1 is returned. -/
theorem s32Vsprintf_differs_empty : ¬ WritesReference (fun _ => 0) (fun _ => 0) 0 0 [] ∧
    ∃ text, (s32VsprintfText (fun _ => 0) (fun _ => 0) 0 0).result =
        .ok ((text.length : ℤ) - 1, put (fun _ => 0) 0 (text ++ [0])) ∧ text = [] := by
  have hfmt : IsStr (fun _ => 0) 0 [] := rfl
  have hps : pieces [] = some [] := rfl
  obtain ⟨hdiffers, text, hresult, heq⟩ := s32Vsprintf_differs hfmt hps (fun _ => 0) 0
  exact ⟨hdiffers, text, hresult, heq.mpr not_false⟩

/-- `%d` and the word -1 behind it. -/
def minusOneFormat : Mem := strMem (strBytes "%d" ++ [0, 0, 0xff, 0xff, 0xff, 0xff])

theorem isStr_minusOneFormat : IsStr minusOneFormat 0 (strBytes "%d") := by
  refine ⟨?_, ?_, ?_, ?_, ?_⟩ <;> decide

theorem minusOneFormat_text (chars : Bool) : expand (convText chars minusOneFormat)
    (argument minusOneFormat 4) [.conv (charByte 'd')] = strBytes "4294967295" := by
  have harg : argument minusOneFormat 4 0 = 0xffffffff := by decide
  have hconv : convText chars minusOneFormat (charByte 'd') (argument minusOneFormat 4 0) =
      numeralText 10 4294967295 := by
    rw [harg]
    simp [convText, charByte]
  show convText chars minusOneFormat (charByte 'd') (argument minusOneFormat 4 0) ++ [] = _
  rw [hconv]
  simp [numeralText, numeral]
  decide

/-- -1 is printed without a sign, and 9 is returned for 10 characters. -/
theorem minus_one_printed : IsStr minusOneFormat 0 (strBytes "%d") ∧
    pieces (strBytes "%d") = some [.conv (charByte 'd')] ∧
    (s32VsprintfText minusOneFormat (fun _ => 0) 0 4).result =
      .ok (9, put (fun _ => 0) 0 (strBytes "4294967295" ++ [0])) ∧
    reference minusOneFormat (argument minusOneFormat 4) [.conv (charByte 'd')] = strBytes "-1" ∧
    ¬ WritesReference minusOneFormat (fun _ => 0) 0 4 [.conv (charByte 'd')] := by
  have hfmt : IsStr minusOneFormat 0 (strBytes "%d") := isStr_minusOneFormat
  have hps : pieces (strBytes "%d") = some [.conv (charByte 'd')] := by decide
  have harg : argument minusOneFormat 4 0 = 0xffffffff := by decide
  have hresult := s32VsprintfText_result hfmt hps (fun _ => 0) 4
  have href : reference minusOneFormat (argument minusOneFormat 4) [.conv (charByte 'd')] =
      strBytes "-1" := by
    show signedText (argument minusOneFormat 4 0).toInt ++ [] = _
    rw [harg, show (0xffffffff : BitVec 32).toInt = -1 by decide]
    simp [signedText, numeralText, numeral]
    decide
  rw [minusOneFormat_text] at hresult
  exact ⟨hfmt, hps, hresult, href, not_writesReference hfmt hps _ _⟩

/-! ## Agreement -/

/-- `s32_vsprintf` and `s32_sprintf` write the same characters and return the same value, and
    `s32_printf` passes these characters to `write`. -/
def Agree (mem : Mem) (fmt ap frame frame' : Addr) (str str' buf : Text) : Prop :=
  ∃ chars v r, (s32VsprintfText mem str fmt ap).result = .ok (v, put str 0 (chars ++ [0])) ∧
    (s32SprintfText mem str' fmt frame).result = .ok (v, put str' 0 (chars ++ [0])) ∧
    (s32PrintfText mem buf fmt frame').result = .ok (r, chars)

/-- How many arguments a format takes. -/
def arity : List Piece → ℕ
  | [] => 0
  | .lit _ :: ps => arity ps
  | .conv _ :: ps => arity ps + 1

section Agreement

variable {mem : Mem} {fmt ap frame frame' : Addr} {l : List Byte} {ps : List Piece}
  {conv : Byte → BitVec 32 → List Byte} {args args' : ℕ → BitVec 32}

theorem expand_congr (h : ∀ k < arity ps, args k = args' k) :
    expand conv args ps = expand conv args' ps := by
  induction ps generalizing args args' with
  | nil => rfl
  | cons piece ps ih =>
    cases piece with
    | lit c => exact congrArg (c :: ·) (ih h)
    | conv c =>
      have hrest : expand conv (fun k => args (k + 1)) ps =
          expand conv (fun k => args' (k + 1)) ps := ih fun k hk => h (k + 1) (Nat.succ_lt_succ hk)
      show conv c (args 0) ++ _ = conv c (args' 0) ++ _
      rw [h 0 (Nat.succ_pos _), hrest]

/-- Without `%c` the texts are shorter by one character for each. -/
theorem expand_length (mem : Mem) (args : ℕ → BitVec 32) (ps : List Piece) :
    (expand (convText true mem) args ps).length =
      (expand (convText false mem) args ps).length + ps.count (.conv (charByte 'c')) := by
  induction ps generalizing args with
  | nil => rfl
  | cons piece ps ih =>
    cases piece with
    | lit c =>
      show (expand _ args ps).length + 1 = (expand _ args ps).length + 1 + _
      rw [ih, List.count_cons_of_ne (by simp)]
      omega
    | conv c =>
      show (convText true mem c (args 0) ++ _).length =
        (convText false mem c (args 0) ++ _).length + _
      rw [List.length_append, List.length_append, ih]
      by_cases hc : c = charByte 'c'
      · have hnone : convText false mem c (args 0) = [] := by
          rw [hc]
          rfl
        have hone : (convText true mem c (args 0)).length = 1 := by
          rw [hc]
          rfl
        rw [hone, hnone, hc, List.count_cons_self, List.length_nil]
        omega
      · have hsame : convText true mem c (args 0) = convText false mem c (args 0) := by
          simp [convText, hc]
        rw [hsame, List.count_cons_of_ne (by simpa using hc)]
        omega

theorem expand_chars (h : Piece.conv (charByte 'c') ∉ ps) (mem : Mem) (args : ℕ → BitVec 32) :
    expand (convText true mem) args ps = expand (convText false mem) args ps := by
  induction ps generalizing args with
  | nil => rfl
  | cons piece ps ih =>
    rw [List.mem_cons, not_or] at h
    obtain ⟨hpiece, hps⟩ := h
    cases piece with
    | lit c => exact congrArg (c :: ·) (ih hps args)
    | conv c =>
      have hc : c ≠ charByte 'c' := fun hc => hpiece (congrArg Piece.conv hc.symm)
      have hsame : convText true mem c (args 0) = convText false mem c (args 0) := by
        simp [convText, hc]
      show convText true mem c (args 0) ++ _ = convText false mem c (args 0) ++ _
      rw [hsame, ih hps]

/-- For every format that does not end inside a conversion, and the same arguments for all
    three: they agree if and only if the format has no `%c` and the text is no longer than
    the buffer of `s32_printf`. -/
theorem formatters_agree_iff (hfmt : IsStr mem fmt l) (hps : pieces l = some ps)
    (hframe : ∀ k < arity ps, stackArgument mem frame k = argument mem ap k)
    (hframe' : ∀ k < arity ps, stackArgument mem frame' k = argument mem ap k)
    (str str' buf : Text) :
    Agree mem fmt ap frame frame' str str' buf ↔ Piece.conv (charByte 'c') ∉ ps ∧
      (expand (convText true mem) (argument mem ap) ps).length ≤ 256 := by
  have hsame : ∀ stack, (∀ k < arity ps, stackArgument mem stack k = argument mem ap k) →
      expand (convText false mem) (stackArgument mem stack) ps =
        expand (convText false mem) (argument mem ap) ps := fun _ h => expand_congr h
  have hlength := expand_length mem (argument mem ap) ps
  have hvsprintf := s32VsprintfText_result hfmt hps str ap
  have hsprintf := s32SprintfText_result hfmt hps str' frame
  rw [hsame frame hframe] at hsprintf
  constructor
  · rintro ⟨chars, v, r, hv, hs, hp⟩
    rw [hvsprintf] at hv
    rw [hsprintf] at hs
    have hvalues := (Prod.mk.inj (Except.ok.inj hv)).1.trans (Prod.mk.inj (Except.ok.inj hs)).1.symm
    have hcount : ps.count (.conv (charByte 'c')) = 0 := by omega
    refine ⟨List.count_eq_zero.mp hcount, ?_⟩
    by_contra hlong
    rw [s32PrintfText_overflow hfmt hps buf frame' (by rw [hsame frame' hframe']; omega)] at hp
    cases hp
  · rintro ⟨hchars, hshort⟩
    have htext := expand_chars hchars mem (argument mem ap)
    rw [htext] at hshort hvsprintf
    have hprintf := s32PrintfText_result hfmt hps buf frame' (by rwa [hsame frame' hframe'])
    rw [hsame frame' hframe'] at hprintf
    exact ⟨_, _, _, hvsprintf, hsprintf, hprintf⟩

end Agreement

/-- `%d`, for which all three find the same word. -/
theorem formatters_agree_iff_minusOne :
    Agree minusOneFormat 0 4 0 0 (fun _ => 0) (fun _ => 0) (fun _ => 0) := by
  have hps : pieces (strBytes "%d") = some [.conv (charByte 'd')] := by decide
  refine (formatters_agree_iff isStr_minusOneFormat hps ?_ ?_ _ _ _).mpr ⟨by decide, ?_⟩
  · decide
  · decide
  · rw [minusOneFormat_text]
    decide

/-- `%c` and the word 65 behind it. -/
def charFormat : Mem := strMem (strBytes "%c" ++ [0, 0, 65])

/-- Only `s32_vsprintf` knows `%c`. -/
theorem char_not_printed : IsStr charFormat 0 (strBytes "%c") ∧
    pieces (strBytes "%c") = some [.conv (charByte 'c')] ∧
    argument charFormat 4 0 = 65 ∧ stackArgument charFormat 0 0 = 65 ∧
    (s32VsprintfText charFormat (fun _ => 0) 0 4).result =
      .ok (0, put (fun _ => 0) 0 (strBytes "A" ++ [0])) ∧
    (s32SprintfText charFormat (fun _ => 0) 0 0).result = .ok (-1, put (fun _ => 0) 0 [0]) ∧
    ¬ Agree charFormat 0 4 0 0 (fun _ => 0) (fun _ => 0) (fun _ => 0) := by
  have hfmt : IsStr charFormat 0 (strBytes "%c") := by
    refine ⟨?_, ?_, ?_, ?_, ?_⟩ <;> decide
  have hps : pieces (strBytes "%c") = some [.conv (charByte 'c')] := by decide
  have harg : argument charFormat 4 0 = 65 := by decide
  have hchars : expand (convText true charFormat) (argument charFormat 4) [.conv (charByte 'c')] =
      strBytes "A" := by
    show convText true charFormat (charByte 'c') (argument charFormat 4 0) ++ [] = _
    rw [harg]
    rfl
  have hvsprintf := s32VsprintfText_result hfmt hps (fun _ => 0) 4
  have hsprintf := s32SprintfText_result hfmt hps (fun _ => 0) 0
  rw [hchars] at hvsprintf
  refine ⟨hfmt, hps, harg, by decide, hvsprintf, hsprintf, ?_⟩
  rintro ⟨chars, v, r, hv, hs, _⟩
  rw [hvsprintf] at hv
  rw [hsprintf] at hs
  have hvalues := (Prod.mk.inj (Except.ok.inj hv)).1.trans (Prod.mk.inj (Except.ok.inj hs)).1.symm
  exact absurd hvalues (by decide)

/-! ## The end of the scan -/

/-- A loop comes to its end at the NUL of the format, and reads nothing behind it. -/
def ScansInside {α : Type} (t : Logged ℕ TextFault α) (last : ℕ) : Prop :=
  (∃ r, t.result = .ok r) ∧ (∀ off ∈ t.log, off ≤ last) ∧ t.log.getLast? = some last

section Scanning

variable {mem : Mem} {fmt ap frame : Addr} {l : List Byte} {ps : List Piece}

/-- A function that goes on without looking at the format again. -/
theorem scansInside_bind_iff {α β : Type} {t : Logged ℕ TextFault α} {last : ℕ} (g : α → β) :
    ScansInside (t >>= fun a => pure (g a)) last ↔ ScansInside t last := by
  rw [bind_pure_eq]
  unfold ScansInside
  dsimp only
  cases t.result with
  | ok a => simp [Except.map]
  | error e => simp [Except.map]

/-- The loop, from the first character on: it comes to its end inside of the format if and
    only if that does not end inside a conversion, and the text fits. -/
theorem formatLoop_scansInside_iff {α : Type} (f : Formatter α) (hfmt : IsStr mem fmt l) (arg : α)
    (str : Text) :
    ScansInside (formatLoop f mem fmt (2 ^ 32) 0 arg ⟨0, str⟩) l.length ↔
      ∃ ps, pieces l = some ps ∧
        ∀ n ∈ f.room, (expand (convText f.chars mem) (f.args arg) ps).length ≤ n := by
  cases hps : pieces l with
  | none =>
    refine iff_of_false ?_ (by simp)
    rintro ⟨⟨w, hw⟩, hwithin, _⟩
    have hstart : IsStr mem (fmt + BitVec.ofNat 32 0) l := by simpa using hfmt
    obtain ⟨off, hoff, hlt⟩ := formatLoop_dangling hstart hps hw
    have hle := hwithin off hoff
    omega
  | some ps =>
    obtain ⟨hresult, hstops⟩ := format_spec f hfmt hps arg str
    constructor
    · rintro ⟨⟨w, hw⟩, _⟩
      refine ⟨ps, rfl, fun n hn => ?_⟩
      by_contra hlong
      rw [hresult, Option.mem_def.mp hn, appendAll_overflow (Nat.zero_le n)
        (by show n < 0 + _; omega)] at hw
      cases hw
    · rintro ⟨qs, hqs, hroom⟩
      rw [← Option.some.inj hqs] at hroom
      rw [appendAll_fits (by intro n hn; have hle := hroom n hn; show 0 + _ ≤ n; omega)] at hresult
      exact ⟨⟨_, hresult⟩, hstops.within, hstops.stops _ hresult⟩

/-- For every format: the scans of `s32_vsprintf` and `s32_sprintf` end at its NUL if and only if
    it does not end inside a conversion, and the scan of `s32_printf` if and only if moreover
    the text is no longer than its buffer. -/
theorem scans_inside_iff (hfmt : IsStr mem fmt l) (str : Text) (ap frame : Addr) :
    (ScansInside (s32VsprintfText mem str fmt ap) l.length ↔ ∃ ps, pieces l = some ps) ∧
    (ScansInside (s32SprintfText mem str fmt frame) l.length ↔ ∃ ps, pieces l = some ps) ∧
    (ScansInside (s32PrintfText mem str fmt frame) l.length ↔ ∃ ps, pieces l = some ps ∧
      (expand (convText false mem) (stackArgument mem frame) ps).length ≤ 256) := by
  unfold s32VsprintfText s32SprintfText s32PrintfText
  simp only [scansInside_bind_iff, formatLoop_scansInside_iff _ hfmt]
  refine ⟨?_, ?_, ?_⟩
  · simp [vsprintfFormatter]
  · simp [sprintfFormatter]
  · rw [printf_args]
    simp [printfFormatter, sprintfFormatter]

end Scanning

/-- `%d` is scanned up to its NUL. -/
theorem scans_inside_iff_minusOne :
    ScansInside (s32VsprintfText minusOneFormat (fun _ => 0) 0 4) 2 ∧
    ScansInside (s32SprintfText minusOneFormat (fun _ => 0) 0 0) 2 ∧
    ScansInside (s32PrintfText minusOneFormat (fun _ => 0) 0 0) 2 := by
  have hps : pieces (strBytes "%d") = some [.conv (charByte 'd')] := by decide
  obtain ⟨hvsprintf, hsprintf, hprintf⟩ :=
    scans_inside_iff isStr_minusOneFormat (fun _ => 0) 4 0
  refine ⟨hvsprintf.mpr ⟨_, hps⟩, hsprintf.mpr ⟨_, hps⟩, hprintf.mpr ⟨_, hps, ?_⟩⟩
  have hargs : expand (convText false minusOneFormat) (stackArgument minusOneFormat 0)
      [.conv (charByte 'd')] = strBytes "4294967295" := by
    rw [← minusOneFormat_text false]
    exact expand_congr (by decide)
  rw [hargs]
  decide

/-- A single `%`: the NUL is taken for a conversion, and what lies behind it is read. -/
theorem nul_skipped : IsStr (strMem [0x25]) 0 [0x25] ∧
    (s32VsprintfText (strMem [0x25]) (fun _ => 0) 0 0).log = [0, 1, 2] ∧
    ¬ ScansInside (s32VsprintfText (strMem [0x25]) (fun _ => 0) 0 0) 1 ∧
    ¬ ScansInside (s32SprintfText (strMem [0x25]) (fun _ => 0) 0 0) 1 ∧
    ¬ ScansInside (s32PrintfText (strMem [0x25]) (fun _ => 0) 0 0) 1 := by
  have hfmt : IsStr (strMem [0x25]) 0 [0x25] := by
    refine ⟨?_, ?_, ?_⟩ <;> decide
  have hnone : pieces [0x25] = none := by decide
  have hinside : ∀ {α : Type} (f : Formatter α) (arg : α),
      ¬ ScansInside (formatLoop f (strMem [0x25]) 0 (2 ^ 32) 0 arg ⟨0, fun _ => 0⟩) 1 := by
    intro α f arg h
    obtain ⟨ps, hps, _⟩ := (formatLoop_scansInside_iff f hfmt arg _).mp h
    rw [hnone] at hps
    cases hps
  refine ⟨hfmt, rfl, mt (scansInside_bind_iff _).mp (hinside _ _),
    mt (scansInside_bind_iff _).mp (hinside _ _), mt (scansInside_bind_iff _).mp (hinside _ _)⟩

end SimpleOs
