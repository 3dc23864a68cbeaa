import SimpleOs.Lib.Latch
import SimpleOs.Lib.Transition
import SimpleOs.Tty.Keyboard

/-!
# Shift and Caps Lock

`parse_scan_code` (tty/keyboard.c:272-348), which reports a key for each scan code.

A call that reads a single byte first notes the key that the call before it has reported,
as a press or a release of a Shift key or a release of Caps Lock, and chooses the column
of `keymap` then. A call that reads a code with the prefix `0xe0` notes nothing, and the
key reported before it is overwritten and is never noted.

* `parseRun_reports`: the column is the one of the codes that were noted.
* `parseRun_column_iff`: the runs in which this is the column of all codes.
-/

namespace SimpleOs

open ByteMem Ring Transition Latch

namespace Terminal

/-! ## The code -/

abbrev ASCII_MODE : ℤ := 2

/-- `shift_r`, `shift_l`, `capslock` (tty/keyboard.c:10-12) and `keymap_col` of
    `parse_scan_code`. -/
@[ext] structure ParseVars where
  shiftR : Byte
  shiftL : Byte
  capslock : Byte
  keymapCol : Byte

/-- The variables, the rest of the state, and `*key_status`. -/
structure Parser where
  vars : ParseVars
  state : State
  status : KeyStatus

/-- What is reported for a scan code in a column of the table. -/
def keyStatusIn (col scanCode : Byte) : KeyStatus where
  key := lookupKey (scanCode &&& 0x7f) col.toNat
  press := if scanCode &&& 0x80 ≠ 0 then .release else .press

/-- The two `if` of the default branch (tty/keyboard.c:292-318). -/
def ParseVars.note (v : ParseVars) (status : KeyStatus) (keyboardMode : ℤ) : ParseVars :=
  let v :=
    if keyboardMode = ASCII_MODE ∧ status.press = .press then
      if status.key = KEY_SHIFT_R then { v with shiftR := 1 }
      else if status.key = KEY_SHIFT_L then { v with shiftL := 1 }
      else v
    else v
  if keyboardMode = ASCII_MODE ∧ status.press = .release then
    if status.key = KEY_SHIFT_R then { v with shiftR := 0 }
    else if status.key = KEY_SHIFT_L then { v with shiftL := 0 }
    else if status.key = KEY_CAPSLOCK then
      { v with capslock := if v.capslock = 0 then 1 else 0 }
    else v
  else v

/-- The column it chooses (tty/keyboard.c:323-336). -/
def ParseVars.column (v : ParseVars) : Byte :=
  if v.capslock = 0 then
    if v.shiftR = 1 ∨ v.shiftL = 1 then 1 else 0
  else
    if v.shiftR = 1 ∨ v.shiftL = 1 then 0 else 1

/-- `parse_scan_code` (tty/keyboard.c:272-348): the value it returns, and what it leaves.
    It is `none` while the second byte of a code has not arrived. -/
def parseScanCode (p : Parser) (keyboardMode : ℤ) : Option (ℤ × Parser) :=
  if 0 < p.state.kbBuf.count then
    let (scanCode, s) := getByteFromKbBuf p.state
    if scanCode = 0xe1 then some (0, { p with state := s })
    else if scanCode = 0xe0 then
      if 0 < s.kbBuf.count then
        let (scanCode, s) := getByteFromKbBuf s
        some (0, { p with state := s, status := keyStatusIn p.vars.keymapCol scanCode })
      else none
    else
      let v := p.vars.note p.status keyboardMode
      let v := { v with keymapCol := v.column }
      some (0, ⟨v, s, keyStatusIn v.keymapCol scanCode⟩)
  else some (1, p)

/-! ## Scan codes -/

/-- A complete scan code: a byte, or a byte behind the prefix `0xe0`. -/
structure Code where
  ext : Bool
  byte : Byte

def Code.bytes (c : Code) : List Byte := if c.ext then [0xe0, c.byte] else [c.byte]

/-- The code is not a part of another. -/
def Code.Complete (c : Code) : Prop := c.ext = false → c.byte ≠ 0xe0 ∧ c.byte ≠ 0xe1

/-- The scan codes of the modifiers: left and right Shift, and the release of Caps Lock. -/
abbrev SHIFT_L_MAKE : Byte := 0x2a
abbrev SHIFT_L_BREAK : Byte := 0xaa
abbrev SHIFT_R_MAKE : Byte := 0x36
abbrev SHIFT_R_BREAK : Byte := 0xb6
abbrev CAPSLOCK_BREAK : Byte := 0xba

/-- A Shift key has been pressed and not been released since. -/
def ShiftHeld (codes : List Byte) : Prop :=
  Latched SHIFT_L_MAKE SHIFT_L_BREAK codes ∨ Latched SHIFT_R_MAKE SHIFT_R_BREAK codes

/-- Caps Lock has been released an odd number of times. -/
def CapsOn (codes : List Byte) : Prop := codes.count CAPSLOCK_BREAK % 2 = 1

instance decidableShiftHeld (codes : List Byte) : Decidable (ShiftHeld codes) :=
  inferInstanceAs (Decidable (_ ∨ _))

instance decidableCapsOn (codes : List Byte) : Decidable (CapsOn codes) :=
  inferInstanceAs (Decidable (_ = _))

/-- The column for these codes: 1 if exactly one of the two is the case. -/
def columnOf (codes : List Byte) : Byte := if (ShiftHeld codes ↔ CapsOn codes) then 0 else 1

/-- The codes that a later call notes: those with a single byte behind them. -/
def noted : List Code → List Byte
  | a :: c :: codes => (if c.ext then [] else [a.byte]) ++ noted (c :: codes)
  | _ => []

/-! ## What one call notes -/

/-- What a code does to the modifiers. -/
def ParseVars.see (v : ParseVars) (code : Byte) : ParseVars :=
  if code = SHIFT_R_MAKE then { v with shiftR := 1 }
  else if code = SHIFT_L_MAKE then { v with shiftL := 1 }
  else if code = SHIFT_R_BREAK then { v with shiftR := 0 }
  else if code = SHIFT_L_BREAK then { v with shiftL := 0 }
  else if code = CAPSLOCK_BREAK then { v with capslock := if v.capslock = 0 then 1 else 0 }
  else v

/-- A column of the table. -/
def IsColumn (col : Byte) : Prop := col = 0 ∨ col = 1

instance (col : Byte) : Decidable (IsColumn col) := inferInstanceAs (Decidable (_ ∨ _))

section Note

variable {col code : Byte} (hcol : IsColumn col)

include hcol

/-- The keys of the modifiers are the same in both columns. -/
theorem keyStatusIn_key :
    ((keyStatusIn col code).key = KEY_SHIFT_R ↔ code = SHIFT_R_MAKE ∨ code = SHIFT_R_BREAK) ∧
    ((keyStatusIn col code).key = KEY_SHIFT_L ↔ code = SHIFT_L_MAKE ∨ code = SHIFT_L_BREAK) ∧
    ((keyStatusIn col code).key = KEY_CAPSLOCK ↔ code = 0x3a ∨ code = CAPSLOCK_BREAK) := by
  rcases hcol with rfl | rfl
  · revert code
    decide
  · revert code
    decide

/-- Noting a key that was reported for a code. -/
theorem note_keyStatusIn (v : ParseVars) :
    v.note (keyStatusIn col code) ASCII_MODE = v.see code := by
  obtain ⟨hr, hl, hc⟩ := @keyStatusIn_key col code hcol
  unfold ParseVars.note ParseVars.see
  simp only [hr, hl, hc, true_and]
  by_cases hsrm : code = SHIFT_R_MAKE
  · subst hsrm
    rfl
  by_cases hslm : code = SHIFT_L_MAKE
  · subst hslm
    rfl
  by_cases hsrb : code = SHIFT_R_BREAK
  · subst hsrb
    rfl
  by_cases hslb : code = SHIFT_L_BREAK
  · subst hslb
    rfl
  by_cases hcap : code = CAPSLOCK_BREAK
  · subst hcap
    rfl
  by_cases hcapm : code = 0x3a
  · subst hcapm
    rfl
  · simp only [hsrm, hslm, hsrb, hslb, hcap, hcapm, or_self, if_false, ite_self]

end Note

theorem note_zero (v : ParseVars) : v.note ⟨0, .press⟩ ASCII_MODE = v := rfl

/-! ## What has been noted -/

/-- The variables behind these codes, all of them noted. -/
def varsOf (codes : List Byte) : ParseVars :=
  codes.foldl ParseVars.see ⟨0, 0, 0, 0⟩

theorem varsOf_concat (codes : List Byte) (code : Byte) :
    varsOf (codes ++ [code]) = (varsOf codes).see code := by
  simp [varsOf]

section See

variable (v : ParseVars) (code : Byte)

theorem see_shiftR : (v.see code).shiftR =
    if code = SHIFT_R_MAKE then 1 else if code = SHIFT_R_BREAK then 0 else v.shiftR := by
  unfold ParseVars.see
  split_ifs <;> simp_all

theorem see_shiftL : (v.see code).shiftL =
    if code = SHIFT_L_MAKE then 1 else if code = SHIFT_L_BREAK then 0 else v.shiftL := by
  unfold ParseVars.see
  split_ifs <;> simp_all

theorem see_capslock : (v.see code).capslock =
    if code = CAPSLOCK_BREAK then (if v.capslock = 0 then 1 else 0) else v.capslock := by
  unfold ParseVars.see
  split_ifs <;> simp_all

theorem see_keymapCol (col : Byte) :
    ParseVars.see { v with keymapCol := col } code = { v.see code with keymapCol := col } := by
  unfold ParseVars.see
  split_ifs <;> rfl

end See

/-- A variable that a make code sets and a break code clears. -/
theorem varsOf_latched {f : ParseVars → Byte} {make brk : Byte} (hne : brk ≠ make)
    (h0 : f ⟨0, 0, 0, 0⟩ = 0)
    (hsee : ∀ v code, f (v.see code) = if code = make then 1 else if code = brk then 0 else f v)
    (codes : List Byte) : f (varsOf codes) = 1 ↔ Latched make brk codes := by
  induction codes using List.reverseRecOn with
  | nil =>
    have hzero : ¬ f (varsOf []) = 1 := by
      rw [show f (varsOf []) = 0 from h0]
      decide
    exact iff_of_false hzero not_latched_nil
  | append_singleton codes code ih =>
    rw [varsOf_concat, hsee]
    by_cases hmake : code = make
    · subst hmake
      rw [if_pos rfl]
      exact iff_of_true rfl latched_concat_set
    by_cases hbreak : code = brk
    · subst hbreak
      rw [if_neg hmake, if_pos rfl]
      exact iff_of_false (by decide) (latched_concat_clear hne)
    · rw [if_neg hmake, if_neg hbreak, ih, latched_concat_other hmake hbreak]

theorem varsOf_capslock (codes : List Byte) : (varsOf codes).capslock = 0 ↔ ¬ CapsOn codes := by
  induction codes using List.reverseRecOn with
  | nil => exact iff_of_true rfl (by decide)
  | append_singleton codes code ih =>
    rw [varsOf_concat, see_capslock]
    unfold CapsOn at ih ⊢
    by_cases hcode : code = CAPSLOCK_BREAK
    · subst hcode
      rw [if_pos rfl, List.count_append, List.count_singleton_self]
      by_cases hzero : (varsOf codes).capslock = 0
      · have hodd := ih.mp hzero
        rw [if_pos hzero]
        exact iff_of_false (by decide) (by omega)
      · have hodd := mt ih.mpr hzero
        rw [if_neg hzero]
        exact iff_of_true rfl (by omega)
    · have hcount : (codes ++ [code]).count CAPSLOCK_BREAK = codes.count CAPSLOCK_BREAK := by
        have hmem : CAPSLOCK_BREAK ∉ [code] := fun h => hcode (List.mem_singleton.mp h).symm
        rw [List.count_append, List.count_eq_zero_of_not_mem hmem, Nat.add_zero]
      rw [if_neg hcode, hcount, ih]

/-- The code chooses the column of the codes that have been noted. -/
theorem varsOf_column (codes : List Byte) : (varsOf codes).column = columnOf codes := by
  have hheld : (varsOf codes).shiftR = 1 ∨ (varsOf codes).shiftL = 1 ↔ ShiftHeld codes := by
    rw [varsOf_latched (f := ParseVars.shiftR) (by decide) rfl see_shiftR,
      varsOf_latched (f := ParseVars.shiftL) (by decide) rfl see_shiftL]
    exact or_comm
  unfold ParseVars.column columnOf
  simp only [hheld, varsOf_capslock]
  by_cases hshift : ShiftHeld codes
  · by_cases hcaps : CapsOn codes
    · simp [hshift, hcaps]
    · simp [hshift, hcaps]
  · by_cases hcaps : CapsOn codes
    · simp [hshift, hcaps]
    · simp [hshift, hcaps]

theorem columnOf_isColumn (codes : List Byte) : IsColumn (columnOf codes) := by
  unfold columnOf
  split_ifs
  · exact .inl rfl
  · exact .inr rfl

/-! ## Runs -/

/-- The parser, and what has been reported for each scan code. -/
structure ParseRun where
  parser : Parser
  reports : List (Code × KeyStatus)

/-- The scan codes of a run. -/
def ParseRun.codes (r : ParseRun) : List Code := r.reports.map Prod.fst

/-- Nothing has been parsed, and `*key_status` is zero. -/
def ParseStart (r : ParseRun) : Prop :=
  r.parser.vars = ⟨0, 0, 0, 0⟩ ∧ r.parser.status = ⟨0, .press⟩ ∧ r.reports = []

/-- An interrupt; a call that finds no scan code; a call that reads a complete one. -/
inductive ParseStep (r : ParseRun) : ParseRun → Prop
  | irq (scanCode : Byte) : ParseStep r
      { r with
        parser := { r.parser with state := storeScanCode r.parser.state scanCode } }
  | empty {p : Parser} (hcall : parseScanCode r.parser ASCII_MODE = some (1, p)) :
      ParseStep r ⟨p, r.reports⟩
  | code {p : Parser} (c : Code) (hcode : c.Complete)
      (hcall : parseScanCode r.parser ASCII_MODE = some (0, p))
      (hread : p.state.scanned = r.parser.state.scanned ++ c.bytes) :
      ParseStep r ⟨p, r.reports ++ [(c, p.status)]⟩

/-- A code that was read as a single byte. -/
theorem Code.of_single {c : Code} {b : Byte} (h : [b] = c.bytes) : c.ext = false ∧ c.byte = b := by
  unfold Code.bytes at h
  split_ifs at h with hext
  · simp at h
  · exact ⟨by simpa using hext, (List.singleton_inj.mp h).symm⟩

/-- A code that was read as two bytes. -/
theorem Code.of_pair {c : Code} {a b : Byte} (h : [a, b] = c.bytes) :
    c.ext = true ∧ c.byte = b := by
  unfold Code.bytes at h
  split_ifs at h with hext
  · simp at h
    exact ⟨hext, h.2.symm⟩
  · simp at h

/-- What one call does with the code it reads. -/
theorem parseScanCode_code {p p' : Parser} {c : Code} (hcode : c.Complete)
    (hcall : parseScanCode p ASCII_MODE = some (0, p'))
    (hread : p'.state.scanned = p.state.scanned ++ c.bytes) :
    p'.status = keyStatusIn p'.vars.keymapCol c.byte ∧
      p'.vars = if c.ext then p.vars
        else { p.vars.note p.status ASCII_MODE with
          keymapCol := (p.vars.note p.status ASCII_MODE).column } := by
  unfold parseScanCode at hcall
  split_ifs at hcall with hcount
  · dsimp only at hcall
    split_ifs at hcall with he1 he0 hmore
    · -- `0xe1` is no complete code
      obtain ⟨_, rfl⟩ := Prod.mk.inj (Option.some.inj hcall)
      obtain ⟨hext, hbyte⟩ := Code.of_single (List.append_cancel_left hread)
      exact absurd (hbyte.trans he1) (hcode hext).2
    · obtain ⟨_, rfl⟩ := Prod.mk.inj (Option.some.inj hcall)
      have hread' : p.state.scanned ++ [(getByteFromKbBuf p.state).1] ++
          [(getByteFromKbBuf (getByteFromKbBuf p.state).2).1] = p.state.scanned ++ c.bytes := hread
      rw [List.append_assoc] at hread'
      obtain ⟨hext, hbyte⟩ := Code.of_pair (List.append_cancel_left hread')
      rw [hext, hbyte]
      exact ⟨rfl, rfl⟩
    · obtain ⟨_, rfl⟩ := Prod.mk.inj (Option.some.inj hcall)
      obtain ⟨hext, hbyte⟩ := Code.of_single (List.append_cancel_left hread)
      rw [hext, hbyte]
      exact ⟨rfl, rfl⟩
  · simp at hcall

/-- A call that finds no code changes nothing. -/
theorem parseScanCode_empty {p p' : Parser} (h : parseScanCode p ASCII_MODE = some (1, p')) :
    p' = p := by
  unfold parseScanCode at h
  split_ifs at h with hcount
  · dsimp only at h
    split_ifs at h
    · simp at h
    · simp at h
    · simp at h
  · exact (Prod.mk.inj (Option.some.inj h)).2.symm

theorem noted_concat (codes : List Code) (a c : Code) :
    noted (codes ++ [a] ++ [c]) =
      noted (codes ++ [a]) ++ if c.ext then [] else [a.byte] := by
  induction codes with
  | nil => simp [noted]
  | cons b codes ih =>
    cases codes with
    | nil => simp [noted]
    | cons d codes =>
      show _ ++ noted (d :: codes ++ [a] ++ [c]) = (_ ++ noted (d :: codes ++ [a])) ++ _
      rw [ih, List.append_assoc]

/-- The variables are those of the codes that have been noted, the last code reported is in
    `*key_status`, and every report was in the column of the codes noted by then. -/
structure ParseInv (r : ParseRun) : Prop where
  vars : r.parser.vars = { varsOf (noted r.codes) with keymapCol := columnOf (noted r.codes) }
  last : (r.codes = [] ∧ r.parser.status = ⟨0, .press⟩) ∨
    ∃ pre a col, r.codes = pre ++ [a] ∧ IsColumn col ∧ r.parser.status = keyStatusIn col a.byte
  reports : ∀ pre c status, pre ++ [(c, status)] <+: r.reports →
    status = keyStatusIn (columnOf (noted (pre.map Prod.fst ++ [c]))) c.byte

theorem ParseStart.parseInv {r : ParseRun} (h : ParseStart r) : ParseInv r := by
  obtain ⟨hvars, hstatus, hreports⟩ := h
  have hcodes : r.codes = [] := by simp [ParseRun.codes, hreports]
  refine ⟨?_, .inl ⟨hcodes, hstatus⟩, fun pre c status hpre => ?_⟩
  · rw [hvars, hcodes]
    rfl
  · simp [hreports] at hpre

/-- Behind one more code. -/
theorem ParseInv.next {r : ParseRun} (h : ParseInv r) (c : Code) :
    (if c.ext then r.parser.vars
      else { r.parser.vars.note r.parser.status ASCII_MODE with
        keymapCol := (r.parser.vars.note r.parser.status ASCII_MODE).column }) =
      { varsOf (noted (r.codes ++ [c])) with keymapCol := columnOf (noted (r.codes ++ [c])) } := by
  rcases h.last with ⟨hcodes, hstatus⟩ | ⟨pre, a, col, hcodes, hcol, hstatus⟩
  · rw [h.vars, hstatus, hcodes, note_zero]
    split_ifs
    · rfl
    · rfl
  · have hvars := h.vars
    rw [hcodes] at hvars ⊢
    rw [noted_concat, hvars, hstatus, note_keyStatusIn hcol, see_keymapCol]
    split_ifs
    · rw [List.append_nil]
    · have hcolumn := varsOf_column (noted (pre ++ [a]) ++ [a.byte])
      rw [varsOf_concat] at hcolumn
      rw [varsOf_concat, ← hcolumn]
      rfl

theorem ParseInv.step {r r' : ParseRun} (h : ParseInv r) (hstep : ParseStep r r') :
    ParseInv r' := by
  cases hstep with
  | irq scanCode => exact ⟨h.vars, h.last, h.reports⟩
  | empty hcall =>
    obtain rfl := parseScanCode_empty hcall
    exact h
  | @code p c hcode hcall hread =>
    obtain ⟨hstatus, hvars⟩ := parseScanCode_code hcode hcall hread
    rw [h.next c] at hvars
    rw [hvars] at hstatus
    have hcodes : ParseRun.codes ⟨p, r.reports ++ [(c, p.status)]⟩ = r.codes ++ [c] := by
      simp [ParseRun.codes]
    refine ⟨?_, .inr ⟨r.codes, c, _, hcodes, columnOf_isColumn _, hstatus⟩, ?_⟩
    · rw [hcodes]
      exact hvars
    · intro pre c' status hpre
      rcases List.prefix_concat_iff.mp hpre with hlast | hpre
      · obtain ⟨rfl, hreport⟩ := List.append_inj' hlast rfl
        obtain ⟨rfl, rfl⟩ := Prod.mk.inj (List.singleton_inj.mp hreport)
        exact hstatus
      · exact h.reports pre c' status hpre

theorem parseRun_inv {r : ParseRun} (h : Reachable ParseStart ParseStep r) : ParseInv r :=
  h.invariant (fun _ => ParseStart.parseInv) fun _ _ hr hstep => hr.step hstep

/-- What is reported for the code `c` behind the codes `pre`. -/
def Decodes (pre : List Code) (c : Code) (status : KeyStatus) : Prop :=
  status = keyStatusIn (columnOf ((pre ++ [c]).map Code.byte)) c.byte

/-- A code with two different keys is read in the column of all codes. -/
def SeesModifiers (pre : List Code) (c : Code) : Prop :=
  lookupKey (c.byte &&& 0x7f) 0 ≠ lookupKey (c.byte &&& 0x7f) 1 →
    columnOf (noted (pre ++ [c])) = columnOf ((pre ++ [c]).map Code.byte)

theorem keyStatusIn_eq_iff {col col' code : Byte} (hcol : IsColumn col) (hcol' : IsColumn col') :
    keyStatusIn col' code = keyStatusIn col code ↔
      (lookupKey (code &&& 0x7f) 0 ≠ lookupKey (code &&& 0x7f) 1 → col' = col) := by
  rcases hcol with rfl | rfl
  · rcases hcol' with rfl | rfl
    · simp
    · simp [keyStatusIn, eq_comm]
  · rcases hcol' with rfl | rfl
    · simp [keyStatusIn]
    · simp

/-- The codes of the modifiers. -/
def IsModifier (code : Byte) : Prop :=
  code ∈ [SHIFT_R_MAKE, SHIFT_L_MAKE, SHIFT_R_BREAK, SHIFT_L_BREAK, CAPSLOCK_BREAK]

instance (code : Byte) : Decidable (IsModifier code) := inferInstanceAs (Decidable (_ ∈ _))

/-- No press or release of a Shift key and no release of Caps Lock has a code with the
    prefix `0xe0` directly behind it. -/
def NothingLost (codes : List Code) : Prop :=
  ∀ pre a c, pre ++ [a] ++ [c] <+: codes → IsModifier a.byte → c.ext = false

theorem see_other {code : Byte} (h : ¬ IsModifier code) (v : ParseVars) : v.see code = v := by
  simp only [IsModifier, List.mem_cons, List.not_mem_nil, or_false, not_or] at h
  obtain ⟨hsrm, hslm, hsrb, hslb, hcap⟩ := h
  rw [ParseVars.see, if_neg hsrm, if_neg hslm, if_neg hsrb, if_neg hslb, if_neg hcap]

/-- When nothing is lost, all codes but the last have been noted. -/
theorem varsOf_noted {codes : List Code} (h : NothingLost codes) {pre : List Code} {c : Code}
    (hpre : pre ++ [c] <+: codes) : varsOf (noted (pre ++ [c])) = varsOf (pre.map Code.byte) := by
  induction pre using List.reverseRecOn generalizing c with
  | nil => rfl
  | append_singleton pre a ih =>
    have ih' := ih ((List.prefix_append ..).trans hpre)
    rw [noted_concat, List.map_append, List.map_singleton, varsOf_concat, ← ih']
    split_ifs with hext
    · have hother : ¬ IsModifier a.byte := fun hmod => by
        have hsingle := h pre a c hpre hmod
        rw [hext] at hsingle
        exact absurd hsingle (by decide)
      rw [List.append_nil, see_other hother]
    · rw [varsOf_concat]

/-- A code with two different keys is no modifier. -/
theorem not_modifier {code : Byte}
    (h : lookupKey (code &&& 0x7f) 0 ≠ lookupKey (code &&& 0x7f) 1) : ¬ IsModifier code := by
  have hkeys : ∀ code ∈ [SHIFT_R_MAKE, SHIFT_L_MAKE, SHIFT_R_BREAK, SHIFT_L_BREAK, CAPSLOCK_BREAK],
      lookupKey (code &&& 0x7f) 0 = lookupKey (code &&& 0x7f) 1 := by decide
  exact fun hmod => h (hkeys code hmod)

theorem NothingLost.seesModifiers {codes : List Code} (h : NothingLost codes) {pre : List Code}
    {c : Code} (hpre : pre ++ [c] <+: codes) : SeesModifiers pre c := by
  intro hkeys
  rw [List.map_append, List.map_singleton, ← varsOf_column, ← varsOf_column, varsOf_concat,
    varsOf_noted h hpre, see_other (not_modifier hkeys)]

/-- In every run, the reports are the keys of the codes, in column 1 if exactly one of Shift
    and Caps Lock is in force and in column 0 otherwise, if and only if each code with two
    different keys meets `SeesModifiers`. All codes do when nothing is lost. -/
theorem parseRun_column_iff {r : ParseRun} (h : Reachable ParseStart ParseStep r) :
    ((∀ pre c status, pre ++ [(c, status)] <+: r.reports →
        Decodes (pre.map Prod.fst) c status) ↔
      ∀ pre c, pre ++ [c] <+: r.codes → SeesModifiers pre c) ∧
    (NothingLost r.codes → ∀ pre c, pre ++ [c] <+: r.codes → SeesModifiers pre c) := by
  refine ⟨?_, fun hlost pre c hpre => hlost.seesModifiers hpre⟩
  have hinv := parseRun_inv h
  have hone : ∀ pre c status, pre ++ [(c, status)] <+: r.reports →
      (Decodes (pre.map Prod.fst) c status ↔ SeesModifiers (pre.map Prod.fst) c) := by
    intro pre c status hpre
    rw [Decodes, hinv.reports pre c status hpre]
    exact keyStatusIn_eq_iff (columnOf_isColumn _) (columnOf_isColumn _)
  constructor
  · intro hall pre c hpre
    obtain ⟨reports, hreports, hmap⟩ := List.prefix_map_iff.mp hpre
    obtain ⟨reports', last, rfl, rfl, hlast⟩ := List.append_eq_map_iff.mp hmap
    obtain ⟨⟨c', status⟩, rfl, rfl⟩ := List.map_eq_singleton_iff.mp hlast
    exact (hone reports' c' status hreports).mp (hall reports' c' status hreports)
  · intro hall pre c status hpre
    refine (hone pre c status hpre).mpr (hall _ c ?_)
    have hcodes := hpre.map Prod.fst
    rwa [List.map_append] at hcodes

/-! ## Every sequence of scan codes has its run -/

theorem parseScanCode_single {p : Parser} {b : Byte} {xs : List Byte}
    (hkb : Ring.Holds KB_NUM p.state.kbBuf (b :: xs)) (he0 : b ≠ 0xe0) (he1 : b ≠ 0xe1) :
    ∃ p', parseScanCode p ASCII_MODE = some (0, p') ∧
      p'.state = (getByteFromKbBuf p.state).2 := by
  obtain ⟨hcount, hbyte, _⟩ := getByteFromKbBuf_holds hkb
  unfold parseScanCode
  dsimp only
  rw [if_pos hcount, hbyte, if_neg he1, if_neg he0]
  exact ⟨_, rfl, rfl⟩

theorem parseScanCode_pair {p : Parser} {b : Byte} {xs : List Byte}
    (hkb : Ring.Holds KB_NUM p.state.kbBuf (0xe0 :: b :: xs)) :
    ∃ p', parseScanCode p ASCII_MODE = some (0, p') ∧
      p'.state = (getByteFromKbBuf (getByteFromKbBuf p.state).2).2 := by
  obtain ⟨hcount, hbyte, hrest, _⟩ := getByteFromKbBuf_holds hkb
  obtain ⟨hcount', _⟩ := getByteFromKbBuf_holds hrest
  unfold parseScanCode
  dsimp only
  rw [if_pos hcount, hbyte, if_neg (by decide), if_pos rfl, if_pos hcount']
  exact ⟨_, rfl, rfl⟩

/-- The bytes of a code arrive, and a call reads them. -/
theorem parseRun_code {r : ParseRun} (h : Reachable ParseStart ParseStep r)
    (hkb : Ring.Holds KB_NUM r.parser.state.kbBuf []) {c : Code} (hc : c.Complete) :
    ∃ r', Reachable ParseStart ParseStep r' ∧ r'.codes = r.codes ++ [c] ∧
      Ring.Holds KB_NUM r'.parser.state.kbBuf [] := by
  cases hext : c.ext with
  | false =>
    obtain ⟨he0, he1⟩ := hc hext
    set s := storeScanCode r.parser.state c.byte with hs
    have hpush : Ring.Holds KB_NUM s.kbBuf [c.byte] := push_holds hkb (by decide)
    obtain ⟨_, _, hrest, hscanned⟩ := getByteFromKbBuf_holds hpush
    obtain ⟨p', hcall, hp'⟩ :=
      parseScanCode_single (p := { r.parser with state := s }) hpush he0 he1
    refine ⟨_, .step (.step h (.irq c.byte)) (.code c hc hcall ?_), by simp [ParseRun.codes], ?_⟩
    · rw [hp', Code.bytes, hext]
      exact hscanned
    · rw [hp']
      exact hrest
  | true =>
    set s := storeScanCode (storeScanCode r.parser.state 0xe0) c.byte with hs
    have hpush : Ring.Holds KB_NUM s.kbBuf [0xe0, c.byte] :=
      push_holds (push_holds (x := 0xe0) hkb (by decide)) (by decide)
    obtain ⟨_, _, hrest, hscanned⟩ := getByteFromKbBuf_holds hpush
    obtain ⟨_, _, hrest', hscanned'⟩ := getByteFromKbBuf_holds hrest
    obtain ⟨p', hcall, hp'⟩ := parseScanCode_pair (p := { r.parser with state := s }) hpush
    refine ⟨_, .step (.step (.step h (.irq 0xe0)) (.irq c.byte)) (.code c hc hcall ?_),
      by simp [ParseRun.codes], ?_⟩
    · rw [hp', Code.bytes, hext]
      show (getByteFromKbBuf (getByteFromKbBuf s).2).2.scanned = s.scanned ++ [0xe0, c.byte]
      rw [hscanned', hscanned, List.append_assoc]
      rfl
    · rw [hp']
      exact hrest'

theorem parseRun_codes {codes : List Code} (h : ∀ c ∈ codes, c.Complete) :
    ∃ r, Reachable ParseStart ParseStep r ∧ r.codes = codes := by
  suffices hrun : ∃ r, Reachable ParseStart ParseStep r ∧ r.codes = codes ∧
      Ring.Holds KB_NUM r.parser.state.kbBuf [] by
    obtain ⟨r, hr, hcodes, _⟩ := hrun
    exact ⟨r, hr, hcodes⟩
  induction codes using List.reverseRecOn with
  | nil =>
    refine ⟨⟨⟨⟨0, 0, 0, 0⟩, bss, ⟨0, .press⟩⟩, []⟩, .init ⟨rfl, rfl, rfl⟩, rfl, ?_⟩
    exact holds_empty _ (by decide)
  | append_singleton codes c ih =>
    obtain ⟨r, hr, hcodes, hkb⟩ := ih fun c hmem => h c (List.mem_append_left _ hmem)
    obtain ⟨r', hr', hcodes', hkb'⟩ := parseRun_code hr hkb (h c (by simp))
    exact ⟨r', hr', by rw [hcodes', hcodes], hkb'⟩

/-- Shift and `a`. -/
theorem parseRun_column_iff_shift : ∃ r : ParseRun,
    r.codes = [⟨false, SHIFT_L_MAKE⟩, ⟨false, 0x1e⟩] ∧
    ((∀ pre c status, pre ++ [(c, status)] <+: r.reports →
        Decodes (pre.map Prod.fst) c status) ↔
      ∀ pre c, pre ++ [c] <+: r.codes → SeesModifiers pre c) ∧
    (NothingLost r.codes → ∀ pre c, pre ++ [c] <+: r.codes → SeesModifiers pre c) := by
  have hcodes : ∀ c ∈ [(⟨false, SHIFT_L_MAKE⟩ : Code), ⟨false, 0x1e⟩], c.Complete := by
    simp [Code.Complete]
  obtain ⟨r, hr, hcodes⟩ := parseRun_codes hcodes
  exact ⟨r, hcodes, parseRun_column_iff hr⟩

/-- Shift is pressed, and then the slash of the keypad, whose code has a prefix, and `a`: `a` is
    reported and not `A`. -/
theorem shift_is_lost : ∃ r, Reachable ParseStart ParseStep r ∧
    r.codes = [⟨false, SHIFT_L_MAKE⟩, ⟨true, 0x35⟩, ⟨false, 0x1e⟩] ∧
    ∃ pre c status, pre ++ [(c, status)] <+: r.reports ∧ status = ⟨0x61, .press⟩ ∧
      ¬ Decodes (pre.map Prod.fst) c status := by
  have hcomplete : ∀ c ∈ [(⟨false, SHIFT_L_MAKE⟩ : Code), ⟨true, 0x35⟩, ⟨false, 0x1e⟩],
      c.Complete := by
    simp [Code.Complete]
  obtain ⟨r, hr, hcodes⟩ := parseRun_codes hcomplete
  obtain ⟨pre, last, hreports, hpre, hlast⟩ := List.append_eq_map_iff.mp
    (show [(⟨false, SHIFT_L_MAKE⟩ : Code), ⟨true, 0x35⟩] ++ [⟨false, 0x1e⟩] = r.reports.map Prod.fst
      from hcodes.symm)
  obtain ⟨⟨c, status⟩, rfl, rfl⟩ := List.map_eq_singleton_iff.mp hlast
  have hprefix : pre ++ [((⟨false, 0x1e⟩ : Code), status)] <+: r.reports :=
    ⟨[], by rw [List.append_nil, hreports]⟩
  have hstatus := (parseRun_inv hr).reports pre _ status hprefix
  rw [hpre] at hstatus
  have hkey : status = ⟨0x61, .press⟩ :=
    hstatus.trans (congrArg₂ KeyStatus.mk (by decide) (by decide))
  refine ⟨r, hr, hcodes, pre, _, status, hprefix, hkey, ?_⟩
  rw [Decodes, hpre, hkey]
  exact fun h => absurd (congrArg KeyStatus.key h) (by decide)

end Terminal

end SimpleOs
