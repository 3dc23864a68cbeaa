import SimpleOs.Tty.Terminal

/-!
# The keyboard

Model of tty/keyboard.c: the interrupt handler, `kb_buf`, the key table and
`keyboard_read`.

* `keymap_col` of `keyboard_read` is never assigned and is 0.
* Of `keyboard_handler` this is the part that works on `kb_buf`; what it shows, and
  where, is in `Tty.KeyDisplay`.
* What is drawn in graphics mode is left out. Both mode tables of vga/set_mode_p.S
  program a start address and a cursor of 0.

`keyboardRead_eq`: what one call does with the scan code it takes.
-/

namespace SimpleOs

open ByteMem Ring

abbrev KB_NUM : ℕ := 32
abbrev KEYMAP_COLS : ℕ := 2

abbrev TEXT_MODE : ℤ := 0
abbrev VGA_320X200X256 : ℤ := 1

/-! ## The key codes (include/keyboard.h:14-90) -/

abbrev KEY_ESC : BitVec 32 := 0x01000000
abbrev KEY_TAB : BitVec 32 := 0x01000001
abbrev KEY_BACKSPACE : BitVec 32 := 0x01000003
abbrev KEY_INSERT : BitVec 32 := 0x01000006
abbrev KEY_HOME : BitVec 32 := 0x01000010
abbrev KEY_END : BitVec 32 := 0x01000011
abbrev KEY_LEFT : BitVec 32 := 0x01000012
abbrev KEY_UP : BitVec 32 := 0x01000013
abbrev KEY_RIGHT : BitVec 32 := 0x01000014
abbrev KEY_DOWN : BitVec 32 := 0x01000015
abbrev KEY_PAGE_UP : BitVec 32 := 0x01000016
abbrev KEY_PAGE_DOWN : BitVec 32 := 0x01000017
abbrev KEY_SHIFT_L : BitVec 32 := 0x01000020
abbrev KEY_CTRL_L : BitVec 32 := 0x01000021
abbrev KEY_ALT_L : BitVec 32 := 0x01000023
abbrev KEY_CAPSLOCK : BitVec 32 := 0x01000024
abbrev KEY_NUMLOCK : BitVec 32 := 0x01000025
abbrev KEY_SCROLL_LOCK : BitVec 32 := 0x01000026
abbrev KEY_F1 : BitVec 32 := 0x01000030
abbrev KEY_F2 : BitVec 32 := 0x01000031
abbrev KEY_F3 : BitVec 32 := 0x01000032
abbrev KEY_F4 : BitVec 32 := 0x01000033
abbrev KEY_F5 : BitVec 32 := 0x01000034
abbrev KEY_F6 : BitVec 32 := 0x01000035
abbrev KEY_F7 : BitVec 32 := 0x01000036
abbrev KEY_F8 : BitVec 32 := 0x01000037
abbrev KEY_F9 : BitVec 32 := 0x01000038
abbrev KEY_F10 : BitVec 32 := 0x01000039
abbrev KEY_F11 : BitVec 32 := 0x0100003a
abbrev KEY_F12 : BitVec 32 := 0x0100003b
abbrev KEY_MINUS : BitVec 32 := 0x01000160
abbrev KEY_MID : BitVec 32 := 0x01000161
abbrev KEY_PLUS : BitVec 32 := 0x01000162
abbrev KEY_DOT : BitVec 32 := 0x01000163
abbrev KEY_SHIFT_R : BitVec 32 := 0x01000220

/-- `PRESS` and `RELEASE`. -/
inductive Press where
  | press
  | release
  deriving DecidableEq

/-- `KeyStatus` (include/keyboard.h:104-109), without `scan_code`. -/
structure KeyStatus where
  key : BitVec 32
  press : Press

/-- `keymap` (tty/keyboard.c:74-204): the keys of each scan code without and with
    Shift. From 0x59 on they are 0. -/
def keymap : List (BitVec 32) := [
  0, 0, KEY_ESC, KEY_ESC, 0x31, 0x21, 0x32, 0x40, 0x33, 0x23, 0x34, 0x24, 0x35, 0x25, 0x36, 0x5e,
  0x37, 0x26, 0x38, 0x2a, 0x39, 0x28, 0x30, 0x29, 0x2d, 0x5f, 0x3d, 0x2b,
  KEY_BACKSPACE, KEY_BACKSPACE, KEY_TAB, KEY_TAB, 0x71, 0x51, 0x77, 0x57, 0x65, 0x45, 0x72, 0x52,
  0x74, 0x54, 0x79, 0x59, 0x75, 0x55, 0x69, 0x49, 0x6f, 0x4f, 0x70, 0x50, 0x5b, 0x7b, 0x5d, 0x7d,
  KEY_ENTER, KEY_ENTER, KEY_CTRL_L, KEY_CTRL_L, 0x61, 0x41, 0x73, 0x53, 0x64, 0x44, 0x66, 0x46,
  0x67, 0x47, 0x68, 0x48, 0x6a, 0x4a, 0x6b, 0x4b, 0x6c, 0x4c, 0x3b, 0x3a, 0x27, 0x22, 0x60, 0x7e,
  KEY_SHIFT_L, KEY_SHIFT_L, 0x5c, 0x7c, 0x7a, 0x5a, 0x78, 0x58, 0x63, 0x43, 0x76, 0x56,
  0x62, 0x42, 0x6e, 0x4e, 0x6d, 0x4d, 0x2c, 0x3c, 0x2e, 0x3e, 0x2f, 0x3f,
  KEY_SHIFT_R, KEY_SHIFT_R, 0x2a, 0x2a, KEY_ALT_L, KEY_ALT_L, 0x20, 0x20,
  KEY_CAPSLOCK, KEY_CAPSLOCK, KEY_F1, KEY_F1, KEY_F2, KEY_F2, KEY_F3, KEY_F3, KEY_F4, KEY_F4,
  KEY_F5, KEY_F5, KEY_F6, KEY_F6, KEY_F7, KEY_F7, KEY_F8, KEY_F8, KEY_F9, KEY_F9,
  KEY_F10, KEY_F10, KEY_NUMLOCK, KEY_NUMLOCK, KEY_SCROLL_LOCK, KEY_SCROLL_LOCK,
  KEY_HOME, KEY_HOME, KEY_UP, KEY_UP, KEY_PAGE_UP, KEY_PAGE_UP, KEY_MINUS, KEY_MINUS,
  KEY_LEFT, KEY_LEFT, KEY_MID, KEY_MID, KEY_RIGHT, KEY_RIGHT, KEY_PLUS, KEY_PLUS,
  KEY_END, KEY_END, KEY_DOWN, KEY_DOWN, KEY_PAGE_DOWN, KEY_PAGE_DOWN, KEY_INSERT, KEY_INSERT,
  KEY_DOT, KEY_DOT, 0, 0, 0, 0, 0, 0, KEY_F11, KEY_F11, KEY_F12, KEY_F12]

/-- `lookup_key` (tty/keyboard.c:206-210). -/
def lookupKey (scanCode : Byte) (col : ℕ) : BitVec 32 :=
  keymap.getD (scanCode.toNat * KEYMAP_COLS + col) 0

/-- The beginning of `keyboard_read` (tty/keyboard.c:399-400). -/
def keyStatus (scanCode : Byte) : KeyStatus where
  key := lookupKey (scanCode &&& 0x7f) 0
  press := if scanCode &&& 0x80 ≠ 0 then .release else .press

namespace Terminal

/-! ## The code -/

/-- What `keyboard_handler` does with `kb_buf` (tty/keyboard.c:41-49). -/
def storeScanCode (s : State) (scanCode : Byte) : State :=
  { s with kbBuf := push KB_NUM s.kbBuf scanCode }

/-- `get_byte_from_kb_buf` (tty/keyboard.c:56-72), for a buffer that is not empty. The
    scan code is added to `scanned`. -/
def getByteFromKbBuf (s : State) : Byte × State :=
  let r := pop KB_NUM s.kbBuf
  (r.1, { s with kbBuf := r.2, scanned := s.scanned ++ [r.1] })

/-- It returns the oldest byte. -/
theorem getByteFromKbBuf_holds {s : State} {x : Byte} {xs : List Byte}
    (h : Ring.Holds KB_NUM s.kbBuf (x :: xs)) :
    0 < s.kbBuf.count ∧ (getByteFromKbBuf s).1 = x ∧
      Ring.Holds KB_NUM (getByteFromKbBuf s).2.kbBuf xs ∧
      (getByteFromKbBuf s).2.scanned = s.scanned ++ [x] := by
  obtain ⟨hx, hrest⟩ := pop_holds h
  have hcount := h.count
  refine ⟨?_, hx, hrest, ?_⟩
  · rw [hcount]
    exact Nat.succ_pos _
  · show s.scanned ++ [(pop KB_NUM s.kbBuf).1] = _
    rw [hx]

/-- `set_03_mode` and `set_vga_mode` (vga/set_mode_p.S:48-104). -/
def setMode (s : State) : State :=
  s.withScreen ((s.toScreen.setVideoStartAddr 0).setCursor 0)

/-- `switch_mode` (tty/keyboard.c:351-385). -/
def switchMode (s : State) (mode : ℤ) : State :=
  if mode = TEXT_MODE then
    if s.vgaMode ≠ TEXT_MODE then
      let s := { setMode s with vgaMode := TEXT_MODE }
      [0, 1, 2].foldl (fun s c => s.withScreen (clearConsole s.toScreen c)) s
    else s
  else if mode = VGA_320X200X256 then
    if s.vgaMode ≠ VGA_320X200X256 then { setMode s with vgaMode := VGA_320X200X256 } else s
  else s

/-- `put_key` for a key of `keyboard_read`, which is added to `typed` when it is put into
    the ring. -/
def typeKey (s : State) (t : TtyId) (key : BitVec 32) : State :=
  let stored :=
    match s.curTty with
    | none => []
    | some cur =>
      if (s.ttyTable t).inbuf.count < TTY_IN_BYTES_NUM then [(key, (s.ttyTable cur).console)]
      else []
  { putKey s t key with typed := s.typed ++ stored }

/-- `keyboard_read` (tty/keyboard.c:387-464). -/
def keyboardRead (s : State) (t : TtyId) : Option State :=
  if 0 < s.kbBuf.count then
    let (scanCode, s) := getByteFromKbBuf s
    let status := keyStatus scanCode
    if status.key = KEY_F1 ∨ status.key = KEY_F2 ∨ status.key = KEY_F3 then
      let r :=
        if s.altL = 1 ∧ status.press = .press then
          (selectTty (switchMode s TEXT_MODE) (status.key - KEY_F1).toInt).map Prod.snd
        else some s
      r.map fun s => { s with altL := 0 }
    else if status.key = KEY_F6 then
      let r :=
        if s.altL = 1 ∧ status.press = .press then
          (selectTty s 3).map fun r => switchMode r.2 VGA_320X200X256
        else some s
      r.map fun s => { s with altL := 0 }
    else if status.key = KEY_ALT_L then some { s with altL := 1 }
    else
      -- the printable characters and the default do the same
      let s := if status.press = .press then typeKey s t status.key else s
      some { s with altL := 0 }
  else some s

/-- `tty_do_read` (tty/tty.c:119-128). -/
def ttyDoRead (s : State) (t : TtyId) : Option State :=
  if isCurrentTty s t then keyboardRead s t else some s

/-! ## One scan code -/

/-- What a scan code makes `keyboard_read` do. -/
inductive KeyAction where
  | switch (t : TtyId)
  | type (key : BitVec 32)
  | nothing
  deriving DecidableEq

/-- The terminal of a function key. -/
def functionTty (key : BitVec 32) : Option TtyId :=
  if key = KEY_F1 then some 0
  else if key = KEY_F2 then some 1
  else if key = KEY_F3 then some 2
  else if key = KEY_F6 then some 3
  else none

/-- The action for a scan code, behind an Alt code or not. -/
def keyAction (altL scanCode : Byte) : KeyAction :=
  let status := keyStatus scanCode
  if status.press = .release then .nothing
  else
    match functionTty status.key with
    | some t => if altL = 1 then .switch t else .nothing
    | none => if status.key = KEY_ALT_L then .nothing else .type status.key

/-- `alt_l` behind a scan code: any code of the key sets it, any other code clears it. -/
def altAfter (scanCode : Byte) : Byte := if (keyStatus scanCode).key = KEY_ALT_L then 1 else 0

/-- The state with its oldest scan code taken out. -/
def State.scan (s : State) : State := (getByteFromKbBuf s).2

/-- The scan code that `keyboard_read` takes out. -/
def State.scanCode (s : State) : Byte := (getByteFromKbBuf s).1

/-- `select_tty`, when the old number is a terminal's. -/
def State.select (s : State) (t : TtyId) : State :=
  { s with curTtyIndex := t.val, toScreen := showTty s.toScreen t (s.ttyTable t).console }

/-- A switch to the terminal `t`. -/
def switchTo (s : State) (t : TtyId) : State :=
  if t = 3 then switchMode (s.select t) VGA_320X200X256 else (switchMode s TEXT_MODE).select t

/-- Carrying an action out. -/
def act (s : State) (t : TtyId) : KeyAction → State
  | .switch u => switchTo s u
  | .type key => typeKey s t key
  | .nothing => s

/-- `switch_mode` changes the screen and `vga_mode` only. -/
theorem switchMode_eq (s : State) (mode : ℤ) :
    ∃ screen vga, switchMode s mode = { s with toScreen := screen, vgaMode := vga } := by
  unfold switchMode
  split_ifs
  · exact ⟨_, _, rfl⟩
  · exact ⟨_, _, rfl⟩
  · exact ⟨_, _, rfl⟩
  · exact ⟨_, _, rfl⟩
  · exact ⟨_, _, rfl⟩

theorem switchMode_text (s : State) : (switchMode s TEXT_MODE).vgaMode = TEXT_MODE := by
  unfold switchMode
  rw [if_pos rfl]
  split_ifs with hmode
  · rfl
  · exact not_not.mp hmode

theorem switchMode_of_text {s : State} (h : s.vgaMode = TEXT_MODE) :
    switchMode s TEXT_MODE = s := by
  unfold switchMode
  rw [if_pos rfl, if_neg fun hne => hne h]

/-- A switch leaves the rings and the logs alone. -/
theorem switchTo_eq (s : State) (t : TtyId) :
    ∃ screen vga, switchTo s t =
        { s with curTtyIndex := t.val, toScreen := screen, vgaMode := vga } ∧
      (t ≠ 3 → vga = TEXT_MODE) := by
  unfold switchTo
  split_ifs with ht
  · obtain ⟨screen, vga, h⟩ := switchMode_eq (s.select t) VGA_320X200X256
    exact ⟨screen, vga, h, fun hne => absurd ht hne⟩
  · obtain ⟨screen, vga, h⟩ := switchMode_eq s TEXT_MODE
    have hvga : vga = TEXT_MODE := by
      have hmode := switchMode_text s
      rw [h] at hmode
      exact hmode
    rw [h]
    exact ⟨_, vga, rfl, fun _ => hvga⟩

theorem selectTty_select {s : State} {old : TtyId} (hold : s.curTtyIndex = old.val) (t : TtyId) :
    selectTty s t.val = some (0, s.select t) := selectTty_eq hold

/-- A function key of the table. -/
theorem functionTty_eq_some {key : BitVec 32} {t : TtyId} (h : functionTty key = some t) :
    (key = KEY_F6 ∧ t = 3) ∨
      ((key = KEY_F1 ∨ key = KEY_F2 ∨ key = KEY_F3) ∧ t ≠ 3 ∧ (key - KEY_F1).toInt = t.val) := by
  unfold functionTty at h
  split_ifs at h with h1 h2 h3 h6
  · obtain rfl := Option.some.inj h
    exact .inr ⟨.inl h1, by decide, by rw [h1]; rfl⟩
  · obtain rfl := Option.some.inj h
    exact .inr ⟨.inr (.inl h2), by decide, by rw [h2]; rfl⟩
  · obtain rfl := Option.some.inj h
    exact .inr ⟨.inr (.inr h3), by decide, by rw [h3]; rfl⟩
  · obtain rfl := Option.some.inj h
    exact .inl ⟨h6, rfl⟩

theorem functionTty_eq_none {key : BitVec 32} (h : functionTty key = none) :
    ¬ (key = KEY_F1 ∨ key = KEY_F2 ∨ key = KEY_F3) ∧ key ≠ KEY_F6 := by
  unfold functionTty at h
  split_ifs at h with h1 h2 h3 h6
  exact ⟨fun hkey => hkey.elim h1 fun hkey => hkey.elim h2 h3, h6⟩

/-- The keys of the table that switch are not the Alt key. -/
theorem functionTty_ne_alt {key : BitVec 32} {t : TtyId} (h : functionTty key = some t) :
    key ≠ KEY_ALT_L := by
  rcases functionTty_eq_some h with ⟨hkey, _⟩ | ⟨hkey, _⟩
  · rw [hkey]
    decide
  · rcases hkey with hkey | hkey | hkey
    · rw [hkey]
      decide
    · rw [hkey]
      decide
    · rw [hkey]
      decide

/-- A function key switches when it is pressed behind an Alt code. -/
theorem keyAction_function {altL scanCode : Byte} {u : TtyId}
    (h : functionTty (keyStatus scanCode).key = some u) :
    keyAction altL scanCode =
      if altL = 1 ∧ (keyStatus scanCode).press = .press then .switch u else .nothing := by
  unfold keyAction
  dsimp only
  rw [h]
  cases (keyStatus scanCode).press with
  | press => simp
  | release => simp

/-- Any other key is typed when it is pressed, but for the Alt key. -/
theorem keyAction_other {altL scanCode : Byte}
    (h : functionTty (keyStatus scanCode).key = none) :
    keyAction altL scanCode =
      if (keyStatus scanCode).key ≠ KEY_ALT_L ∧ (keyStatus scanCode).press = .press then
        .type (keyStatus scanCode).key
      else .nothing := by
  unfold keyAction
  dsimp only
  rw [h]
  cases (keyStatus scanCode).press with
  | press => simp
  | release => simp

/-- F6 selects first and changes the mode then. -/
theorem select_f6 {s : State} {cur : TtyId} (hcur : s.curTtyIndex = cur.val) :
    (selectTty s 3).map (fun r => switchMode r.2 VGA_320X200X256) = some (switchTo s 3) := by
  show (selectTty s (3 : TtyId).val).map _ = _
  rw [selectTty_select hcur]
  rfl

/-- F1, F2 and F3 change the mode first. -/
theorem select_text {s : State} {cur u : TtyId} (hcur : s.curTtyIndex = cur.val) (hu : u ≠ 3) :
    (selectTty (switchMode s TEXT_MODE) u.val).map Prod.snd = some (switchTo s u) := by
  obtain ⟨screen, vga, hmode⟩ := switchMode_eq s TEXT_MODE
  have hcur' : (switchMode s TEXT_MODE).curTtyIndex = cur.val := by
    rw [hmode]
    exact hcur
  rw [selectTty_select hcur', switchTo, if_neg hu]
  rfl

/-- One call of `keyboard_read` with a scan code in the buffer. -/
theorem keyboardRead_eq {s : State} {cur : TtyId} (hcur : s.curTtyIndex = cur.val)
    (hcount : 0 < s.kbBuf.count) (t : TtyId) :
    keyboardRead s t = some
      { act s.scan t (keyAction s.altL s.scanCode) with altL := altAfter s.scanCode } := by
  have hscan : s.scan.curTtyIndex = cur.val := hcur
  unfold keyboardRead
  rw [if_pos hcount]
  show (let status := keyStatus s.scanCode
    if status.key = KEY_F1 ∨ status.key = KEY_F2 ∨ status.key = KEY_F3 then
      (if s.altL = 1 ∧ status.press = .press then
        (selectTty (switchMode s.scan TEXT_MODE) (status.key - KEY_F1).toInt).map Prod.snd
      else some s.scan).map fun s => { s with altL := 0 }
    else if status.key = KEY_F6 then
      (if s.altL = 1 ∧ status.press = .press then
        (selectTty s.scan 3).map fun r => switchMode r.2 VGA_320X200X256
      else some s.scan).map fun s => { s with altL := 0 }
    else if status.key = KEY_ALT_L then some { s.scan with altL := 1 }
    else some
      { (if status.press = .press then typeKey s.scan t status.key else s.scan) with
        altL := 0 }) = _
  dsimp only
  cases hkey : functionTty (keyStatus s.scanCode).key with
  | some u =>
    have hafter : altAfter s.scanCode = 0 := if_neg (functionTty_ne_alt hkey)
    rw [hafter, keyAction_function hkey]
    rcases functionTty_eq_some hkey with ⟨h6, hu⟩ | ⟨h123, hu, hindex⟩
    · have hnot123 : ¬ ((keyStatus s.scanCode).key = KEY_F1 ∨ (keyStatus s.scanCode).key = KEY_F2 ∨
          (keyStatus s.scanCode).key = KEY_F3) := by
        rw [h6]
        decide
      rw [if_neg hnot123, if_pos h6, select_f6 hscan, hu]
      split_ifs <;> rfl
    · rw [if_pos h123, hindex, select_text hscan hu]
      split_ifs <;> rfl
  | none =>
    obtain ⟨hnot123, hnot6⟩ := functionTty_eq_none hkey
    rw [if_neg hnot123, if_neg hnot6, keyAction_other hkey]
    by_cases ha : (keyStatus s.scanCode).key = KEY_ALT_L
    · have hafter : altAfter s.scanCode = 1 := if_pos ha
      rw [if_pos ha, hafter, if_neg fun h => h.1 ha]
      rfl
    · have hafter : altAfter s.scanCode = 0 := if_neg ha
      rw [if_neg ha, hafter]
      by_cases hpress : (keyStatus s.scanCode).press = .press
      · rw [if_pos hpress, if_pos ⟨ha, hpress⟩]
        rfl
      · rw [if_neg hpress, if_neg fun h => hpress h.2]
        rfl

theorem keyboardRead_empty {s : State} (hcount : ¬ 0 < s.kbBuf.count) (t : TtyId) :
    keyboardRead s t = some s := if_neg hcount

end Terminal

end SimpleOs
