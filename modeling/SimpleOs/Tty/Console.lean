import SimpleOs.Lib.ByteMem

/-!
# The consoles

Model of the functions of tty/console.c that print on a console of
`console_table`, of `clear_console` (include/console.h:58-64) and of the two
pairs of CRTC registers that they program.

* A `Console *` is the index of its element of `console_table`.
* The screen keeps the characters that have been passed to
  `s32_console_print_char` and the bytes it has written, in order.
* What is drawn on the graphic console is left out; its cursor is not.

A text console is a page of 50 lines of 80 characters on which `Cursor.type`
types; `printChar_cursor` shows that the code does just this.
-/

namespace SimpleOs

open ByteMem

/-! ## The data (include/console.h, tty/console.c:11-20) -/

/-- An element of `console_table[CONSOLE_NUM]`. -/
abbrev ConsoleId := Fin 4

instance neZero_consoles : @NeZero ℕ Zero.ofOfNat0 4 := ⟨by decide⟩

abbrev CONSOLE_NUM : BitVec 32 := 4

/-- `VIDEO_RAM_SIZE`: a third of the text video memory. -/
abbrev VIDEO_RAM_SIZE : BitVec 32 := (0xc0000 - 0xb8000) / (CONSOLE_NUM - 1)

/-- `TEXT_CONSOLE` and `GRAPHIC_CONSOLE`. -/
inductive ConsoleType where
  | text
  | graphic
  deriving DecidableEq

/-- `Console` (include/console.h:30-37). -/
structure Console where
  vmStart : BitVec 32
  curVm : BitVec 32
  curX : BitVec 32
  curY : BitVec 32
  type : ConsoleType

/-- The consoles, the CRTC registers and the output so far. -/
structure Screen where
  consoleTable : ConsoleId → Console
  /-- `START_ADDR_H` and `START_ADDR_L`. -/
  startAddr : BitVec 16
  /-- `CURSOR_H` and `CURSOR_L`. -/
  cursor : BitVec 16
  passed : List (ConsoleId × Byte)
  written : List (ConsoleId × Addr × Byte)

/-- Replace the console `c`. -/
def Screen.setConsole (s : Screen) (c : ConsoleId) (con : Console) : Screen :=
  { s with consoleTable := Function.update s.consoleTable c con }

@[simp] theorem Screen.setConsole_self (s : Screen) (c : ConsoleId) (con : Console) :
    (s.setConsole c con).consoleTable c = con := Function.update_self ..

theorem Screen.setConsole_of_ne (s : Screen) {c d : ConsoleId} (con : Console) (h : d ≠ c) :
    (s.setConsole c con).consoleTable d = s.consoleTable d := Function.update_of_ne h ..

/-! ## The code -/

/-- `init_console` (tty/console.c:22-39). -/
def initConsole (s : Screen) : Screen :=
  { s with
    consoleTable := fun i =>
      let con := s.consoleTable i
      if i.val < 3 then
        let vm := 0xb8000 + BitVec.ofNat 32 i.val * VIDEO_RAM_SIZE
        { con with curVm := vm, vmStart := vm, curX := 0, curY := 2, type := .text }
      else { con with type := .graphic, curVm := 0xa0000, vmStart := 0xa0000 } }

/-- `set_cursor` (tty/console.c:52-61). -/
def Screen.setCursor (s : Screen) (pos : BitVec 16) : Screen := { s with cursor := pos }

/-- `set_video_start_addr` (tty/console.c:63-71). -/
def Screen.setVideoStartAddr (s : Screen) (addr : BitVec 16) : Screen :=
  { s with startAddr := addr }

/-- `set_xy` (tty/console.c:140-144). -/
def Screen.setXy (s : Screen) (c : ConsoleId) (x y : BitVec 32) : Screen :=
  s.setConsole c { s.consoleTable c with curX := x, curY := y }

/-- `case 0x20 ... 0x7e`. -/
def Printable (ch : Byte) : Prop := 0x20 ≤ ch ∧ ch ≤ 0x7e

instance (ch : Byte) : Decidable (Printable ch) := inferInstanceAs (Decidable (_ ∧ _))

/-- `\r` and `\n`. -/
abbrev CR : Byte := 0x0d
abbrev LF : Byte := 0x0a

/-- The character cell of the cursor. -/
def Console.cell (con : Console) : Addr := con.vmStart + (con.curX + con.curY * 80) * 2

/-- What the `switch` writes to video memory (tty/console.c:223-224). -/
def Console.writes (con : Console) (ch : Byte) : List (Addr × Byte) :=
  if Printable ch then [(con.cell, ch), (con.cell + 1, 7)] else []

/-- What the `switch` does to the cursor (tty/console.c:212-234). -/
def Console.putChar (con : Console) (ch : Byte) : Console :=
  if ch = CR then { con with curX := 0 }
  else if ch = LF then { con with curY := con.curY + 1 }
  else if Printable ch then
    if 80 ≤ con.curX + 1 then { con with curX := 0, curY := con.curY + 1 }
    else { con with curX := con.curX + 1 }
  else con

/-- The cursor of the graphic console behind a character (tty/console.c:160-165). -/
def Console.drawChar (con : Console) : Console :=
  if 320 ≤ con.curX + 8 then { con with curX := 0, curY := con.curY + 16 }
  else { con with curX := con.curX + 8 }

/-- The number of the first character cell of the console. -/
def Console.base (con : Console) : BitVec 32 := (con.vmStart - 0xb8000) / 2

/-- The end of `s32_console_print_char` (tty/console.c:235-240), for a console whose
    cursor has moved. -/
def Screen.program (s : Screen) (c : ConsoleId) (con : Console) : Screen :=
  let s := if 25 ≤ con.curY then s.setVideoStartAddr ((80 * (con.curY - 24)).setWidth 16) else s
  let s := s.setCursor ((con.base + con.curX + con.curY * 80).setWidth 16)
  s.setConsole c { con with curVm := (con.curX + con.curY * 80) * 2 + con.vmStart }

/-- `s32_console_print_char` (tty/console.c:152-241). -/
def s32ConsolePrintChar (s : Screen) (c : ConsoleId) (ch : Byte) : Screen :=
  let con := s.consoleTable c
  let s := { s with passed := s.passed ++ [(c, ch)] }
  if con.type = .graphic then s.setConsole c con.drawChar
  else if 50 ≤ con.curY then s
  else
    let s := { s with written := s.written ++ (con.writes ch).map fun w => (c, w) }
    s.program c (con.putChar ch)

/-- `s32_console_print_str` (tty/console.c:243-249). -/
def s32ConsolePrintStr (s : Screen) (c : ConsoleId) (str : List Byte) : Screen :=
  str.foldl (fun s ch => s32ConsolePrintChar s c ch) s

/-- `s32_console_print_char_xy` (tty/console.c:125-130). -/
def s32ConsolePrintCharXy (s : Screen) (c : ConsoleId) (ch : Byte) (x y : BitVec 32) : Screen :=
  s32ConsolePrintChar (s.setXy c x y) c ch

/-- `clear_console` (include/console.h:58-64). -/
def clearConsole (s : Screen) (c : ConsoleId) : Screen :=
  let s := (List.range 50).foldl (fun s y =>
    (List.range 80).foldl (fun s x =>
      s32ConsolePrintCharXy s c 0x20 (BitVec.ofNat 32 x) (BitVec.ofNat 32 y)) s) s
  s.setXy c 0 2

/-! ## What a text console is for -/

/-- A place on the page. -/
structure Cursor where
  x : ℕ
  y : ℕ
  deriving DecidableEq

/-- Typing a character at a place: a carriage return goes to the start of the line,
    a line feed to the next line, a printable character takes its place. Nothing is
    typed below the page. -/
def Cursor.type (p : Cursor) (ch : Byte) : Cursor :=
  if 50 ≤ p.y then p
  else if ch = CR then ⟨0, p.y⟩
  else if ch = LF then ⟨p.x, p.y + 1⟩
  else if Printable ch then (if 80 ≤ p.x + 1 then ⟨0, p.y + 1⟩ else ⟨p.x + 1, p.y⟩)
  else p

/-- Typing a text. -/
def Cursor.typeAll (p : Cursor) (text : List Byte) : Cursor := text.foldl Cursor.type p

/-- The places of the page, and those of the line below it. -/
def Cursor.OnPage (p : Cursor) : Prop := p.x < 80 ∧ p.y ≤ 50

theorem Cursor.OnPage.type {p : Cursor} (h : p.OnPage) (ch : Byte) : (p.type ch).OnPage := by
  obtain ⟨hx, hy⟩ := h
  unfold Cursor.type
  split_ifs with hfull hcr hlf hprint hwrap
  · exact ⟨hx, hy⟩
  · exact ⟨show 0 < 80 by omega, hy⟩
  · exact ⟨hx, show p.y + 1 ≤ 50 by omega⟩
  · exact ⟨show 0 < 80 by omega, show p.y + 1 ≤ 50 by omega⟩
  · exact ⟨show p.x + 1 < 80 by omega, hy⟩
  · exact ⟨hx, hy⟩

/-- The line never goes back. -/
theorem Cursor.le_type (p : Cursor) (ch : Byte) : p.y ≤ (p.type ch).y := by
  unfold Cursor.type
  split_ifs
  · exact Nat.le_refl _
  · exact Nat.le_refl _
  · exact Nat.le_succ _
  · exact Nat.le_succ _
  · exact Nat.le_refl _
  · exact Nat.le_refl _

theorem Cursor.type_of_full {p : Cursor} (h : 50 ≤ p.y) (ch : Byte) : p.type ch = p := if_pos h

theorem Cursor.OnPage.typeAll {p : Cursor} (h : p.OnPage) (text : List Byte) :
    (p.typeAll text).OnPage := by
  induction text generalizing p with
  | nil => exact h
  | cons ch text ih => exact ih (h.type ch)

theorem Cursor.le_typeAll (p : Cursor) (text : List Byte) : p.y ≤ (p.typeAll text).y := by
  induction text generalizing p with
  | nil => exact Nat.le_refl _
  | cons ch text ih => exact Nat.le_trans (p.le_type ch) (ih _)

theorem Cursor.typeAll_of_full {p : Cursor} (h : 50 ≤ p.y) (text : List Byte) :
    p.typeAll text = p := by
  induction text with
  | nil => rfl
  | cons ch text ih =>
    show (p.type ch).typeAll text = p
    rw [p.type_of_full h, ih]

/-- The place of a console's cursor. -/
def Console.place (con : Console) : Cursor := ⟨con.curX.toNat, con.curY.toNat⟩

/-- The `switch` of the code types. -/
theorem Console.putChar_place {con : Console} (h : con.place.OnPage) (hroom : ¬ 50 ≤ con.curY)
    (ch : Byte) : (con.putChar ch).place = con.place.type ch := by
  obtain ⟨hx, hy⟩ := h
  have hx' : con.curX.toNat < 80 := hx
  have hy' : con.curY.toNat < 50 := by
    simp only [BitVec.le_def, not_le] at hroom
    exact hroom
  have hfull : ¬ 50 ≤ con.place.y := by
    show ¬ 50 ≤ con.curY.toNat
    omega
  have hsucc : (con.curY + 1).toNat = con.curY.toNat + 1 := by bv_omega
  have hnext : (con.curX + 1).toNat = con.curX.toNat + 1 := by bv_omega
  have hwrap : 80 ≤ con.curX + 1 ↔ 80 ≤ con.place.x + 1 := by
    rw [BitVec.le_def, hnext]
    rfl
  unfold Console.putChar Cursor.type
  rw [if_neg hfull]
  simp only [hwrap]
  split_ifs
  · rfl
  · exact congrArg (Cursor.mk _) hsucc
  · exact congrArg (Cursor.mk _) hsucc
  · exact congrArg (fun x => Cursor.mk x _) hnext
  · rfl

/-! ## One character -/

section PrintChar

variable (s : Screen) (c : ConsoleId) (ch : Byte)

/-- The character is typed: the console is a text console with room. -/
def Screen.Accepts : Prop :=
  (s.consoleTable c).type = .text ∧ ¬ 50 ≤ (s.consoleTable c).curY

instance Screen.decidableAccepts : Decidable (s.Accepts c) := inferInstanceAs (Decidable (_ ∧ _))

/-- The three things `s32_console_print_char` does. -/
theorem printChar_cases :
    (s32ConsolePrintChar s c ch = { s with passed := s.passed ++ [(c, ch)] } ∧
      (s.consoleTable c).type = .text ∧ 50 ≤ (s.consoleTable c).curY) ∨
    (s32ConsolePrintChar s c ch =
        Screen.setConsole { s with passed := s.passed ++ [(c, ch)] } c
          (s.consoleTable c).drawChar ∧
      (s.consoleTable c).type = .graphic) ∨
    (s32ConsolePrintChar s c ch =
        Screen.program
          { s with
            passed := s.passed ++ [(c, ch)]
            written := s.written ++ ((s.consoleTable c).writes ch).map fun w => (c, w) }
          c ((s.consoleTable c).putChar ch) ∧
      s.Accepts c) := by
  unfold s32ConsolePrintChar
  cases htype : (s.consoleTable c).type with
  | graphic =>
    refine .inr (.inl ⟨?_, rfl⟩)
    dsimp only
    rw [if_pos htype]
  | text =>
    have hgraphic : ¬ (s.consoleTable c).type = .graphic := by
      rw [htype]
      nofun
    by_cases hfull : 50 ≤ (s.consoleTable c).curY
    · refine .inl ⟨?_, rfl, hfull⟩
      dsimp only
      rw [if_neg hgraphic, if_pos hfull]
    · refine .inr (.inr ⟨?_, htype, hfull⟩)
      dsimp only
      rw [if_neg hgraphic, if_neg hfull]

theorem Console.putChar_vmStart (con : Console) : (con.putChar ch).vmStart = con.vmStart := by
  unfold putChar
  split_ifs <;> rfl

theorem Console.putChar_type (con : Console) : (con.putChar ch).type = con.type := by
  unfold putChar
  split_ifs <;> rfl

theorem Console.drawChar_vmStart (con : Console) : con.drawChar.vmStart = con.vmStart := by
  unfold drawChar
  split_ifs <;> rfl

theorem Console.drawChar_type (con : Console) : con.drawChar.type = con.type := by
  unfold drawChar
  split_ifs <;> rfl

/-- The end of the function moves no cursor but `cur_vm`. -/
theorem Screen.program_self (con : Console) :
    (s.program c con).consoleTable c =
      { con with curVm := (con.curX + con.curY * 80) * 2 + con.vmStart } := by
  unfold program
  exact Screen.setConsole_self ..

theorem Screen.program_of_ne {d : ConsoleId} (con : Console) (h : d ≠ c) :
    (s.program c con).consoleTable d = s.consoleTable d := by
  unfold program
  rw [Screen.setConsole_of_ne _ _ h]
  dsimp only [Screen.setCursor]
  split_ifs <;> rfl

theorem Screen.program_output (con : Console) :
    (s.program c con).passed = s.passed ∧ (s.program c con).written = s.written := by
  unfold program
  dsimp only [Screen.setConsole, Screen.setCursor]
  split_ifs
  · exact ⟨rfl, rfl⟩
  · exact ⟨rfl, rfl⟩

@[simp] theorem printChar_passed :
    (s32ConsolePrintChar s c ch).passed = s.passed ++ [(c, ch)] := by
  rcases printChar_cases s c ch with ⟨h, _⟩ | ⟨h, _⟩ | ⟨h, _⟩
  · rw [h]
  · rw [h]
    rfl
  · rw [h, (Screen.program_output ..).1]

theorem printChar_of_ne {d : ConsoleId} (h : d ≠ c) :
    (s32ConsolePrintChar s c ch).consoleTable d = s.consoleTable d := by
  rcases printChar_cases s c ch with ⟨h', _⟩ | ⟨h', _⟩ | ⟨h', _⟩
  · rw [h']
  · rw [h', Screen.setConsole_of_ne _ _ h]
  · rw [h', Screen.program_of_ne _ _ _ h]

/-- Printing does not make another console of a console. -/
theorem printChar_fixed (d : ConsoleId) :
    ((s32ConsolePrintChar s c ch).consoleTable d).vmStart = (s.consoleTable d).vmStart ∧
      ((s32ConsolePrintChar s c ch).consoleTable d).type = (s.consoleTable d).type := by
  by_cases hd : d = c
  · subst hd
    rcases printChar_cases s d ch with ⟨h, _⟩ | ⟨h, _⟩ | ⟨h, _⟩
    · rw [h]
      exact ⟨rfl, rfl⟩
    · rw [h, Screen.setConsole_self]
      exact ⟨Console.drawChar_vmStart _, Console.drawChar_type _⟩
    · rw [h, Screen.program_self]
      exact ⟨Console.putChar_vmStart _ _, Console.putChar_type _ _⟩
  · rw [printChar_of_ne s c ch hd]
    exact ⟨rfl, rfl⟩

/-- A text console types what it is given. -/
theorem printChar_place (htext : (s.consoleTable c).type = .text)
    (hpage : (s.consoleTable c).place.OnPage) :
    ((s32ConsolePrintChar s c ch).consoleTable c).place = (s.consoleTable c).place.type ch := by
  rcases printChar_cases s c ch with ⟨h, _, hfull⟩ | ⟨_, hgraphic⟩ | ⟨h, _, hroom⟩
  · rw [h, Cursor.type_of_full (by exact hfull)]
  · rw [htext] at hgraphic
    nomatch hgraphic
  · rw [h, Screen.program_self, ← Console.putChar_place hpage hroom]
    rfl

/-- What is written, and to which registers. -/
theorem printChar_written :
    (s32ConsolePrintChar s c ch).written = s.written ++
      if s.Accepts c then ((s.consoleTable c).writes ch).map fun w => (c, w) else [] := by
  rcases printChar_cases s c ch with ⟨h, htext, hfull⟩ | ⟨h, hgraphic⟩ | ⟨h, hacc⟩
  · rw [h, if_neg fun hacc => hacc.2 hfull, List.append_nil]
  · have hnot : ¬ s.Accepts c := by
      intro hacc
      have htext := hacc.1
      rw [hgraphic] at htext
      nomatch htext
    rw [h, if_neg hnot, List.append_nil]
    rfl
  · rw [h, (Screen.program_output ..).2, if_pos hacc]

theorem printChar_registers :
    (s.Accepts c →
      (s32ConsolePrintChar s c ch).cursor =
        ((s.consoleTable c).base + ((s.consoleTable c).putChar ch).curX +
          ((s.consoleTable c).putChar ch).curY * 80).setWidth 16 ∧
      (s32ConsolePrintChar s c ch).startAddr =
        if 25 ≤ ((s.consoleTable c).putChar ch).curY then
          (80 * (((s.consoleTable c).putChar ch).curY - 24)).setWidth 16
        else s.startAddr) ∧
    (¬ s.Accepts c →
      (s32ConsolePrintChar s c ch).cursor = s.cursor ∧
      (s32ConsolePrintChar s c ch).startAddr = s.startAddr) := by
  have hbase : ((s.consoleTable c).putChar ch).base = (s.consoleTable c).base := by
    unfold Console.base
    rw [Console.putChar_vmStart]
  rcases printChar_cases s c ch with ⟨h, _, hfull⟩ | ⟨h, hgraphic⟩ | ⟨h, hacc⟩
  · refine ⟨fun hacc => absurd hfull hacc.2, fun _ => ?_⟩
    rw [h]
    exact ⟨rfl, rfl⟩
  · refine ⟨fun hacc => ?_, fun _ => ?_⟩
    · have htext := hacc.1
      rw [hgraphic] at htext
      nomatch htext
    · rw [h]
      exact ⟨rfl, rfl⟩
  · refine ⟨fun _ => ?_, fun hnot => absurd hacc hnot⟩
    rw [h, ← hbase]
    unfold Screen.program
    split_ifs
    · exact ⟨rfl, rfl⟩
    · exact ⟨rfl, rfl⟩

end PrintChar

/-! ## A text -/

section PrintStr

variable (s : Screen) (c : ConsoleId)

theorem printStr_cons (ch : Byte) (str : List Byte) :
    s32ConsolePrintStr s c (ch :: str) =
      s32ConsolePrintStr (s32ConsolePrintChar s c ch) c str := rfl

theorem printStr_passed (str : List Byte) :
    (s32ConsolePrintStr s c str).passed = s.passed ++ str.map fun ch => (c, ch) := by
  induction str generalizing s with
  | nil => exact (List.append_nil _).symm
  | cons ch str ih => rw [printStr_cons, ih, printChar_passed, List.append_assoc]; rfl

theorem printStr_of_ne {d : ConsoleId} (h : d ≠ c) (str : List Byte) :
    (s32ConsolePrintStr s c str).consoleTable d = s.consoleTable d := by
  induction str generalizing s with
  | nil => rfl
  | cons ch str ih => rw [printStr_cons, ih, printChar_of_ne s c ch h]

variable {s c}

/-- A text console types the text. -/
theorem printStr_place (htext : (s.consoleTable c).type = .text)
    (hpage : (s.consoleTable c).place.OnPage) (str : List Byte) :
    ((s32ConsolePrintStr s c str).consoleTable c).place =
      (s.consoleTable c).place.typeAll str := by
  induction str generalizing s with
  | nil => rfl
  | cons ch str ih =>
    have hplace := printChar_place s c ch htext hpage
    have htext' : ((s32ConsolePrintChar s c ch).consoleTable c).type = .text := by
      rw [(printChar_fixed s c ch c).2, htext]
    have hpage' : ((s32ConsolePrintChar s c ch).consoleTable c).place.OnPage := by
      rw [hplace]
      exact hpage.type ch
    rw [printStr_cons, ih htext' hpage', hplace]
    rfl

/-- On a console that takes nothing the registers stay as they are. -/
theorem printStr_of_not_accepts (h : ¬ s.Accepts c) (str : List Byte) :
    (s32ConsolePrintStr s c str).cursor = s.cursor ∧
      (s32ConsolePrintStr s c str).startAddr = s.startAddr := by
  induction str generalizing s with
  | nil => exact ⟨rfl, rfl⟩
  | cons ch str ih =>
    obtain ⟨hcursor, hstart⟩ := (printChar_registers s c ch).2 h
    have hnot : ¬ (s32ConsolePrintChar s c ch).Accepts c := by
      intro hacc
      rcases printChar_cases s c ch with ⟨hch, htext, hfull⟩ | ⟨_, hgraphic⟩ | ⟨_, hacc'⟩
      · apply hacc.2
        rw [hch]
        exact hfull
      · have htype := hacc.1
        rw [(printChar_fixed s c ch c).2, hgraphic] at htype
        nomatch htype
      · exact h hacc'
    rw [printStr_cons, (ih hnot).1, (ih hnot).2]
    exact ⟨hcursor, hstart⟩

end PrintStr

end SimpleOs
