import SimpleOs.Lib.Ring
import SimpleOs.Tty.Console

/-!
# The terminals

Model of tty/tty.c: `select_tty`, `init_tty`, `is_current_tty`, `tty_do_write`,
`put_key`, `tty_write`, and the beginning of `task_tty`.

* A `Tty *` is the index of its element of `tty_table`. An access to
  `tty_table[cur_tty_index]` outside the table is `none`.
* The state also has the variables of tty/keyboard.c, whose functions are in
  the next module, and what the two parts of a pass over a terminal have done.
* The key that `put_key` shows in line 20 and the counter of `task_tty` in line
  23 are left out.
-/

namespace SimpleOs

open ByteMem Ring

/-- An element of `tty_table[TTY_NUM]`. -/
abbrev TtyId := Fin 4

abbrev TTY_IN_BYTES_NUM : ℕ := 256

abbrev KEY_ENTER : BitVec 32 := 0x01000005

namespace Terminal

/-! ## The data -/

/-- `Tty` (include/tty.h:11-19). -/
structure Tty where
  /-- `inbuf` with `inbuf_head`, `inbuf_tail` and `inbuf_count`. -/
  inbuf : RingBuffer (BitVec 32)
  ready : BitVec 32
  console : ConsoleId

/-- The variables of tty/tty.c and tty/keyboard.c, and what has happened. -/
structure State extends Screen where
  ttyTable : TtyId → Tty
  curTtyIndex : ℤ
  /-- `kb_buf` (tty/keyboard.c:9). -/
  kbBuf : RingBuffer Byte
  /-- `alt_l` of `keyboard_read`. -/
  altL : Byte
  vgaMode : ℤ
  /-- The scan codes that `keyboard_read` has read. -/
  scanned : List Byte
  /-- The keys it has put into a ring, and the console of the terminal that was
      current then. -/
  typed : List (BitVec 32 × ConsoleId)
  /-- The keys that `tty_do_write` has taken out, and where it has printed them. -/
  echoed : List (BitVec 32 × ConsoleId)

/-- Replace the screen. -/
def State.withScreen (s : State) (screen : Screen) : State := { s with toScreen := screen }

/-- Replace the terminal `t`. -/
def State.setTty (s : State) (t : TtyId) (tty : Tty) : State :=
  { s with ttyTable := Function.update s.ttyTable t tty }

/-- `tty_table[cur_tty_index]`. -/
def State.curTty (s : State) : Option TtyId :=
  if h : 0 ≤ s.curTtyIndex ∧ s.curTtyIndex < 4 then some ⟨s.curTtyIndex.toNat, by omega⟩ else none

/-! ## The code -/

/-- `simple os tty `. -/
def title : List Byte :=
  [0x73, 0x69, 0x6d, 0x70, 0x6c, 0x65, 0x20, 0x6f, 0x73, 0x20, 0x74, 0x74, 0x79, 0x20]

/-- `\r\nfake login: `. -/
def login : List Byte :=
  [CR, LF, 0x66, 0x61, 0x6b, 0x65, 0x20, 0x6c, 0x6f, 0x67, 0x69, 0x6e, 0x3a, 0x20]

/-- The `switch` of `select_tty` (tty/tty.c:32-45). -/
def number (t : TtyId) : List Byte :=
  if t = 0 then [0x31] else if t = 1 then [0x32] else if t = 2 then [0x33] else []

/-- What `select_tty` does to the screen (tty/tty.c:26-54). -/
def showTty (screen : Screen) (t : TtyId) (c : ConsoleId) : Screen :=
  let con := screen.consoleTable c
  let orgX := con.curX
  let orgY := con.curY
  let screen := screen.setXy c 0 0
  let screen := s32ConsolePrintStr screen c title
  let screen := s32ConsolePrintStr screen c (number t)
  let screen := s32ConsolePrintStr screen c login
  let screen := s32ConsolePrintStr screen c [CR, LF, CR, LF]
  let screen := screen.setXy c orgX orgY
  let curConsoleVmStart : BitVec 16 := con.base.setWidth 16
  let screen := screen.setVideoStartAddr curConsoleVmStart
  screen.setCursor ((curConsoleVmStart.setWidth 32 + orgX + orgY * 80).setWidth 16)

/-- `select_tty` (tty/tty.c:15-56): the value it returns, and the state. The number
    that is checked is the old one. -/
def selectTty (s : State) (ttyIndex : ℤ) : Option (ℤ × State) :=
  let r :=
    if 0 ≤ s.curTtyIndex ∧ s.curTtyIndex < 4 then (0, { s with curTtyIndex := ttyIndex })
    else (-1, s)
  let s := r.2
  match s.curTty with
  | none => none
  | some t => some (r.1, s.withScreen (showTty s.toScreen t (s.ttyTable t).console))

/-- `init_tty` (tty/tty.c:58-69). -/
def initTty (s : State) (t : TtyId) : State :=
  let tty := s.ttyTable t
  s.setTty t
    { tty with
      inbuf := { tty.inbuf with count := 0, head := 0, tail := 0 }
      console := t
      ready := 1 }

/-- `is_current_tty` (tty/tty.c:71-80). -/
def isCurrentTty (s : State) (t : TtyId) : Prop := s.curTtyIndex = t.val

instance (s : State) (t : TtyId) : Decidable (isCurrentTty s t) :=
  inferInstanceAs (Decidable (_ = _))

/-- The `switch` of `tty_do_write` (tty/tty.c:141-150). -/
def printKey (screen : Screen) (c : ConsoleId) (ch : BitVec 32) : Screen :=
  if ch = KEY_ENTER then s32ConsolePrintChar (s32ConsolePrintChar screen c CR) c LF
  else s32ConsolePrintChar screen c (ch.setWidth 8)

/-- `tty_do_write` (tty/tty.c:130-152). -/
def ttyDoWrite (s : State) (t : TtyId) : Option State :=
  if (s.ttyTable t).inbuf.count ≠ 0 then
    let r := pop TTY_IN_BYTES_NUM (s.ttyTable t).inbuf
    let s := s.setTty t { s.ttyTable t with inbuf := r.2 }
    match s.curTty with
    | none => none
    | some cur =>
      let c := (s.ttyTable cur).console
      some
        { s.withScreen (printKey s.toScreen c r.1) with echoed := s.echoed ++ [(r.1, c)] }
  else some s

/-- `put_key` (tty/tty.c:184-195). -/
def putKey (s : State) (t : TtyId) (key : BitVec 32) : State :=
  s.setTty t { s.ttyTable t with inbuf := push TTY_IN_BYTES_NUM (s.ttyTable t).inbuf key }

/-- `tty_write` (tty/tty.c:197-203), with the bytes of the buffer. -/
def ttyWrite (s : State) (t : TtyId) (buf : List Byte) : State :=
  buf.foldl (fun s ch =>
    if (s.ttyTable t).ready = 1 then
      s.withScreen (s32ConsolePrintChar s.toScreen (s.ttyTable t).console ch)
    else s) s

/-- The beginning of `task_tty`, before the first `select_tty` (tty/tty.c:158-163). -/
def initTtys (s : State) : State :=
  let s := s.withScreen (initConsole s.toScreen)
  (List.finRange 4).foldl initTty s

/-- The beginning of `task_tty` (tty/tty.c:158-164). -/
def taskTtyInit (s : State) : Option State := (selectTty (initTtys s) 0).map Prod.snd

/-- The variables before `task_tty`: what is in `.bss` is 0, and `init_keyboard`
    (tty/keyboard.c:20-33) has emptied `kb_buf`. -/
def bss : State where
  consoleTable := fun _ => ⟨0, 0, 0, 0, .text⟩
  startAddr := 0
  cursor := 0
  passed := []
  written := []
  ttyTable := fun _ => ⟨⟨fun _ => 0, 0, 0, 0⟩, 0, 0⟩
  curTtyIndex := 0
  kbBuf := ⟨fun _ => 0, 0, 0, 0⟩
  altL := 0
  vgaMode := 0
  scanned := []
  typed := []
  echoed := []

/-! ## What the functions do -/

@[simp] theorem State.withScreen_toScreen (s : State) (screen : Screen) :
    (s.withScreen screen).toScreen = screen := rfl
@[simp] theorem State.withScreen_ttyTable (s : State) (screen : Screen) :
    (s.withScreen screen).ttyTable = s.ttyTable := rfl
@[simp] theorem State.withScreen_curTtyIndex (s : State) (screen : Screen) :
    (s.withScreen screen).curTtyIndex = s.curTtyIndex := rfl
@[simp] theorem State.setTty_toScreen (s : State) (t : TtyId) (tty : Tty) :
    (s.setTty t tty).toScreen = s.toScreen := rfl
@[simp] theorem State.setTty_curTtyIndex (s : State) (t : TtyId) (tty : Tty) :
    (s.setTty t tty).curTtyIndex = s.curTtyIndex := rfl

/-- The current terminal, when there is one. -/
theorem State.curTty_eq_some {s : State} {t : TtyId} :
    s.curTty = some t ↔ s.curTtyIndex = t.val := by
  unfold State.curTty
  constructor
  · intro h
    split_ifs at h with hin
    rw [← Option.some.inj h]
    show s.curTtyIndex = (s.curTtyIndex.toNat : ℤ)
    omega
  · intro h
    have hlt := t.isLt
    rw [dif_pos (by omega)]
    congr 1
    apply Fin.ext
    show s.curTtyIndex.toNat = t.val
    omega

/-- Several texts in a row. -/
theorem printStr_append (screen : Screen) (c : ConsoleId) (a b : List Byte) :
    s32ConsolePrintStr (s32ConsolePrintStr screen c a) c b = s32ConsolePrintStr screen c (a ++ b) :=
  (List.foldl_append ..).symm

/-- What `select_tty` prints. -/
def header (t : TtyId) : List Byte := title ++ number t ++ login ++ [CR, LF, CR, LF]

theorem showTty_eq (screen : Screen) (t : TtyId) (c : ConsoleId) :
    showTty screen t c =
      (((s32ConsolePrintStr (screen.setXy c 0 0) c (header t)).setXy c
          (screen.consoleTable c).curX (screen.consoleTable c).curY).setVideoStartAddr
        ((screen.consoleTable c).base.setWidth 16)).setCursor
        ((((screen.consoleTable c).base.setWidth 16).setWidth 32 + (screen.consoleTable c).curX +
          (screen.consoleTable c).curY * 80).setWidth 16) := by
  unfold showTty header
  simp only [printStr_append]

/-- The text that is printed for a key. -/
def keyText (ch : BitVec 32) : List Byte := if ch = KEY_ENTER then [CR, LF] else [ch.setWidth 8]

theorem printKey_eq (screen : Screen) (c : ConsoleId) (ch : BitVec 32) :
    printKey screen c ch = s32ConsolePrintStr screen c (keyText ch) := by
  unfold printKey keyText
  split_ifs <;> rfl

/-- `select_tty` with a terminal of the table, when the old number is one too. -/
theorem selectTty_eq {s : State} {old t : TtyId} (hold : s.curTtyIndex = old.val) :
    selectTty s t.val = some (0,
      { s with
        curTtyIndex := t.val
        toScreen := showTty s.toScreen t (s.ttyTable t).console }) := by
  have hlt := old.isLt
  have hcur : State.curTty { s with curTtyIndex := t.val } = some t := State.curTty_eq_some.mpr rfl
  unfold selectTty
  rw [if_pos (by omega)]
  dsimp only
  rw [hcur]
  rfl

@[simp] theorem State.setTty_self (s : State) (t : TtyId) (tty : Tty) :
    (s.setTty t tty).ttyTable t = tty := Function.update_self ..

theorem State.setTty_of_ne (s : State) {t u : TtyId} (tty : Tty) (h : u ≠ t) :
    (s.setTty t tty).ttyTable u = s.ttyTable u := Function.update_of_ne h ..

/-- The console of a terminal does not change with its ring. -/
theorem State.setTty_console (s : State) (t u : TtyId) (inbuf : RingBuffer (BitVec 32)) :
    ((s.setTty t { s.ttyTable t with inbuf := inbuf }).ttyTable u).console =
      (s.ttyTable u).console := by
  by_cases hu : u = t
  · subst hu
    rw [State.setTty_self]
  · rw [State.setTty_of_ne _ _ hu]

/-- `tty_do_write` on a terminal with keys takes one and prints it on the console of
    the current terminal. -/
theorem ttyDoWrite_eq {s : State} {cur : TtyId} (hcur : s.curTtyIndex = cur.val) {t : TtyId}
    (hcount : (s.ttyTable t).inbuf.count ≠ 0) :
    ttyDoWrite s t = some
      { s.setTty t { s.ttyTable t with inbuf := (pop TTY_IN_BYTES_NUM (s.ttyTable t).inbuf).2 } with
        toScreen := printKey s.toScreen (s.ttyTable cur).console
          (pop TTY_IN_BYTES_NUM (s.ttyTable t).inbuf).1
        echoed := s.echoed ++
          [((pop TTY_IN_BYTES_NUM (s.ttyTable t).inbuf).1, (s.ttyTable cur).console)] } := by
  have hsome : State.curTty
      (s.setTty t { s.ttyTable t with inbuf := (pop TTY_IN_BYTES_NUM (s.ttyTable t).inbuf).2 }) =
        some cur := State.curTty_eq_some.mpr hcur
  unfold ttyDoWrite
  rw [if_pos hcount]
  dsimp only
  rw [hsome]
  dsimp only
  rw [State.setTty_console]
  rfl

theorem ttyDoWrite_empty {s : State} {t : TtyId} (hcount : (s.ttyTable t).inbuf.count = 0) :
    ttyDoWrite s t = some s := if_neg fun h => h hcount

/-- What `init_tty` leaves behind. -/
theorem initTtys_tty (s : State) (t : TtyId) :
    (initTtys s).ttyTable t =
      { (s.ttyTable t) with
        inbuf := { (s.ttyTable t).inbuf with count := 0, head := 0, tail := 0 }
        console := t
        ready := 1 } := by
  have hall : ∀ t : TtyId, t = 0 ∨ t = 1 ∨ t = 2 ∨ t = 3 := by decide
  rcases hall t with rfl | rfl | rfl | rfl
  · rfl
  · rfl
  · rfl
  · rfl

theorem initTtys_curTtyIndex (s : State) : (initTtys s).curTtyIndex = s.curTtyIndex := rfl

theorem taskTtyInit_eq {s : State} (h : s.curTtyIndex = (0 : TtyId).val) :
    taskTtyInit s = some
      { initTtys s with
        curTtyIndex := (0 : TtyId).val
        toScreen := showTty (initConsole s.toScreen) 0 0 } := by
  have hcur : (initTtys s).curTtyIndex = (0 : TtyId).val := by
    rw [initTtys_curTtyIndex, h]
  unfold taskTtyInit
  rw [show (0 : ℤ) = ((0 : TtyId).val : ℤ) from rfl, selectTty_eq hcur, initTtys_tty]
  rfl

theorem ttyWrite_cons (s : State) (t : TtyId) (ch : Byte) (buf : List Byte) :
    ttyWrite s t (ch :: buf) =
      ttyWrite
        (if (s.ttyTable t).ready = 1 then
          s.withScreen (s32ConsolePrintChar s.toScreen (s.ttyTable t).console ch)
        else s) t buf := rfl

/-- `tty_write` prints its text. -/
theorem ttyWrite_eq {s : State} {t : TtyId} (h : (s.ttyTable t).ready = 1) (buf : List Byte) :
    ttyWrite s t buf =
      s.withScreen (s32ConsolePrintStr s.toScreen (s.ttyTable t).console buf) := by
  induction buf generalizing s with
  | nil => rfl
  | cons ch buf ih =>
    rw [ttyWrite_cons, if_pos h, ih (by exact h)]
    rfl

/-- On a terminal that is not ready it prints nothing. -/
theorem ttyWrite_not_ready {s : State} {t : TtyId} (h : (s.ttyTable t).ready ≠ 1)
    (buf : List Byte) : ttyWrite s t buf = s := by
  induction buf with
  | nil => rfl
  | cons ch buf ih => rw [ttyWrite_cons, if_neg h, ih]

end Terminal

end SimpleOs
