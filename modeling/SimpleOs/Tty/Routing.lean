import SimpleOs.Tty.Echo
import SimpleOs.Tty.Graphic
import SimpleOs.Tty.KeyDisplay
import SimpleOs.Tty.Window

/-!
# Where the keys are echoed

The loop of `task_tty` with the whole of `keyboard_handler`, and what `tty_do_write`
prints. A text console returns at once from line 50 on (tty/console.c:207-208), and the
graphic one draws its characters below its screen when its cursor is there.

* `loopRun_echoes`: every key is taken out by the `tty_do_write` of its pass, for the
  console of the terminal that was current when it was typed, and is printed there
  exactly when the console has room.
* `key_below_the_page`: the key behind 48 times Enter is not printed.
-/

namespace SimpleOs

open ByteMem Ring Transition

/-! ## What is printed -/

/-- A character is printed: a text console has a line for it, the graphic one draws it on
    the screen. -/
def Screen.Prints (s : Screen) (c : ConsoleId) (ch : Byte) : Prop :=
  match (s.consoleTable c).type with
  | .text => ¬ 50 ≤ (s.consoleTable c).curY
  | .graphic =>
    ∀ p ∈ draw8x16Ch (s.consoleTable c).curX (s.consoleTable c).curY ch 5, p.OnScreen

instance Screen.decidablePrints (s : Screen) (c : ConsoleId) (ch : Byte) :
    Decidable (s.Prints c ch) := by
  unfold Screen.Prints
  cases (s.consoleTable c).type with
  | text => exact inferInstanceAs (Decidable (¬ _))
  | graphic => exact inferInstanceAs (Decidable (∀ _ ∈ _, _))

/-- What is printed of a text. -/
def Screen.printed (s : Screen) (c : ConsoleId) : List Byte → List (ConsoleId × Byte)
  | [] => []
  | ch :: str =>
    (if s.Prints c ch then [(c, ch)] else []) ++ (s32ConsolePrintChar s c ch).printed c str

/-- The cursor is where a key can be printed: above line 50, or on the graphic console
    where its characters are on the screen. -/
def Screen.HasRoom (s : Screen) (c : ConsoleId) (str : List Byte) : Prop :=
  match (s.consoleTable c).type with
  | .text => (s.consoleTable c).place.y < 50
  | .graphic => ∀ p ∈ (str.foldl (Graphic.printChar · c) ⟨s, []⟩).drawn, p.OnScreen

section Printed

variable {s : Screen} {c : ConsoleId} {ch : Byte} {str : List Byte}

theorem printed_length_le (s : Screen) (c : ConsoleId) (str : List Byte) :
    (s.printed c str).length ≤ str.length := by
  induction str generalizing s with
  | nil => exact Nat.le_refl _
  | cons ch str ih =>
    have hrest := ih (s32ConsolePrintChar s c ch)
    rw [Screen.printed, List.length_append, List.length_cons]
    split_ifs
    · rw [List.length_singleton]
      omega
    · rw [List.length_nil]
      omega

/-- A text is printed when each character is. -/
theorem printed_cons_eq_iff :
    s.printed c (ch :: str) = (ch :: str).map (fun ch => (c, ch)) ↔
      s.Prints c ch ∧ (s32ConsolePrintChar s c ch).printed c str = str.map fun ch => (c, ch) := by
  rw [Screen.printed, List.map_cons]
  by_cases hprints : s.Prints c ch
  · rw [if_pos hprints, List.singleton_append, List.cons_inj_right]
    exact ⟨fun h => ⟨hprints, h⟩, fun h => h.2⟩
  · rw [if_neg hprints, List.nil_append]
    refine iff_of_false (fun heq => ?_) fun h => hprints h.1
    have hlen := congrArg List.length heq
    have hle := printed_length_le (s32ConsolePrintChar s c ch) c str
    rw [List.length_cons, List.length_map] at hlen
    omega

theorem prints_text (h : (s.consoleTable c).type = .text) :
    s.Prints c ch ↔ (s.consoleTable c).place.y < 50 := by
  unfold Screen.Prints
  rw [h]
  show ¬ 50 ≤ (s.consoleTable c).curY ↔ (s.consoleTable c).curY.toNat < 50
  rw [BitVec.le_def]
  exact Nat.not_le

/-- What is drawn comes behind what has been drawn. -/
theorem printChar_drawn (s : Screen) (before : List Point) (c : ConsoleId) (ch : Byte) :
    Graphic.printChar ⟨s, before⟩ c ch = ⟨s32ConsolePrintChar s c ch,
      before ++ (Graphic.printChar ⟨s, []⟩ c ch).drawn⟩ := by
  unfold Graphic.printChar
  dsimp only
  split_ifs
  · rw [List.nil_append]
  · rw [List.append_nil]

theorem drawn_append (s : Screen) (before : List Point) (c : ConsoleId) (str : List Byte) :
    (str.foldl (Graphic.printChar · c) ⟨s, before⟩).drawn =
      before ++ (str.foldl (Graphic.printChar · c) ⟨s, []⟩).drawn := by
  induction str generalizing s before with
  | nil => exact (List.append_nil _).symm
  | cons ch str ih =>
    rw [List.foldl_cons, List.foldl_cons, printChar_drawn, ih,
      printChar_drawn s [], ih _ ([] ++ _), List.nil_append, List.append_assoc]

theorem printed_graphic_iff (h : (s.consoleTable c).type = .graphic) :
    s.printed c str = str.map (fun ch => (c, ch)) ↔
      ∀ p ∈ (str.foldl (Graphic.printChar · c) ⟨s, []⟩).drawn, p.OnScreen := by
  induction str generalizing s with
  | nil => simp [Screen.printed]
  | cons ch str ih =>
    have htype : ((s32ConsolePrintChar s c ch).consoleTable c).type = .graphic := by
      rw [(printChar_fixed s c ch c).2, h]
    have hfirst : Graphic.printChar ⟨s, []⟩ c ch = ⟨s32ConsolePrintChar s c ch,
        draw8x16Ch (s.consoleTable c).curX (s.consoleTable c).curY ch 5⟩ := by
      unfold Graphic.printChar
      dsimp only
      rw [if_pos h, List.nil_append]
    have hprints : s.Prints c ch ↔
        ∀ p ∈ draw8x16Ch (s.consoleTable c).curX (s.consoleTable c).curY ch 5, p.OnScreen := by
      unfold Screen.Prints
      rw [h]
    rw [printed_cons_eq_iff, List.foldl_cons, hfirst, drawn_append, List.forall_mem_append,
      ← ih htype, hprints]

end Printed

namespace Terminal

/-- A key is printed exactly when there is room. The carriage return of Enter leaves the
    line as it is. -/
theorem printed_key_iff {s : Screen} {c : ConsoleId}
    (hpage : (s.consoleTable c).type = .text → (s.consoleTable c).place.OnPage) (key : BitVec 32) :
    s.printed c (keyText key) = (keyText key).map (fun ch => (c, ch)) ↔
      s.HasRoom c (keyText key) := by
  cases htype : (s.consoleTable c).type with
  | graphic =>
    rw [printed_graphic_iff htype, Screen.HasRoom, htype]
  | text =>
    have hroom : s.HasRoom c (keyText key) ↔ (s.consoleTable c).place.y < 50 := by
      rw [Screen.HasRoom, htype]
    have hnil : ∀ s' : Screen, s'.printed c [] = List.map (fun ch => (c, ch)) [] := fun _ => rfl
    rw [hroom]
    unfold keyText
    split_ifs
    · have hplace := printChar_place s c CR htype (hpage htype)
      have htype' : ((s32ConsolePrintChar s c CR).consoleTable c).type = .text := by
        rw [(printChar_fixed s c CR c).2, htype]
      have hline : ((s.consoleTable c).place.type CR).y = (s.consoleTable c).place.y := by
        unfold Cursor.type
        by_cases hfull : 50 ≤ (s.consoleTable c).place.y
        · rw [if_pos hfull]
        · rw [if_neg hfull, if_pos rfl]
      rw [printed_cons_eq_iff, printed_cons_eq_iff, prints_text htype, prints_text htype', hplace,
        hline]
      exact ⟨fun h => h.1, fun h => ⟨h, h, hnil _⟩⟩
    · rw [printed_cons_eq_iff, prints_text htype]
      exact ⟨fun h => h.1, fun h => ⟨h, hnil _⟩⟩

/-! ## The loop with its output -/

/-- What `tty_do_write` prints (tty/tty.c:141-150). -/
def ttyDoWritePrints (s : State) (t : TtyId) : List (ConsoleId × Byte) :=
  if (s.ttyTable t).inbuf.count ≠ 0 then
    match s.curTty with
    | none => []
    | some cur =>
      s.toScreen.printed (s.ttyTable cur).console
        (keyText (pop TTY_IN_BYTES_NUM (s.ttyTable t).inbuf).1)
  else []

/-- The key that `tty_do_write` takes out, if any, has room on the console of the current
    terminal. -/
def KeyFits (s : State) (t : TtyId) : Prop :=
  (s.ttyTable t).inbuf.count ≠ 0 → ∀ cur, s.curTty = some cur →
    s.toScreen.HasRoom (s.ttyTable cur).console
      (keyText (pop TTY_IN_BYTES_NUM (s.ttyTable t).inbuf).1)

/-- The loop, `cur_pos` of `keyboard_handler`, the number of interrupts and what the echo
    has printed. -/
structure EchoLoop extends Loop where
  curPos : BitVec 32
  interrupts : ℕ
  printed : List (ConsoleId × Byte)

/-- A step of the loop, in which a key is echoed under the condition `C`, or an
    interrupt. -/
inductive EchoStep (C : State → TtyId → Prop) (e : EchoLoop) : EchoLoop → Prop
  | irq (scanCode : Byte) {h : Handler}
      (hirq : keyboardHandler ⟨e.state, e.curPos, []⟩ scanCode = .ok h) :
      EchoStep C e
        { e with state := h.state, curPos := h.curPos, interrupts := e.interrupts + 1 }
  | skip {t : TtyId} (hpos : e.pos = .read t) (hready : (e.state.ttyTable t).ready ≠ 1) :
      EchoStep C e { e with pos := .read (t + 1) }
  | read {t : TtyId} {s : State} (hpos : e.pos = .read t)
      (hready : (e.state.ttyTable t).ready = 1) (hread : ttyDoRead e.state t = some s) :
      EchoStep C e { e with state := s, pos := .write t }
  | write {t : TtyId} {s : State} (hpos : e.pos = .write t)
      (hwrite : ttyDoWrite e.state t = some s) (hC : C e.state t) :
      EchoStep C e
        { e with
          state := s
          pos := .read (t + 1)
          printed := e.printed ++ ttyDoWritePrints e.state t }

/-- `task_tty` has set up the terminals, and no interrupt has come yet. -/
structure EchoStart (e : EchoLoop) : Prop where
  pos : e.pos = .read 0
  init : ∃ s0 : State, s0.curTtyIndex = 0 ∧ s0.vgaMode = TEXT_MODE ∧ s0.typed = [] ∧
    s0.echoed = [] ∧ s0.written = [] ∧ taskTtyInit s0 = some e.state
  curPos : e.curPos = 0
  interrupts : e.interrupts = 0
  printed : e.printed = []

/-! ## One step -/

/-- What holds between two steps. -/
structure EchoInv (e : EchoLoop) (pending : List (BitVec 32 × ConsoleId)) : Prop where
  loop : LoopInv e.toLoop pending
  video : InVideo e.state.toScreen
  curPos : e.curPos = BitVec.ofNat 32 (3 * e.interrupts)
  few : e.interrupts ≤ 48566

theorem InVideo.switchMode {s : State} (h : InVideo s.toScreen) (mode : ℤ) :
    InVideo (switchMode s mode).toScreen := by
  have hset : InVideo (setMode s).toScreen := h.setRegisters 0 0
  unfold Terminal.switchMode
  split_ifs
  · simp only [List.foldl_cons, List.foldl_nil, State.withScreen_toScreen]
    exact ((hset.clearConsole 0).clearConsole 1).clearConsole 2
  · exact h
  · exact hset
  · exact h
  · exact h

/-- What a scan code makes `keyboard_read` do leaves the echo alone. -/
theorem act_echo {s : State} (h : InVideo s.toScreen) (t : TtyId) (action : KeyAction) :
    InVideo (act s t action).toScreen ∧ (act s t action).echoed = s.echoed := by
  cases action with
  | switch u =>
    refine ⟨?_, ?_⟩
    · show InVideo (switchTo s u).toScreen
      unfold switchTo
      split_ifs
      · exact InVideo.switchMode (s := s.select u) (h.showTty u _) _
      · exact (InVideo.switchMode h _).showTty u _
    · obtain ⟨screen, vga, hswitch, _⟩ := switchTo_eq s u
      show (switchTo s u).echoed = s.echoed
      rw [hswitch]
  | type key => exact ⟨h, rfl⟩
  | nothing => exact ⟨h, rfl⟩

section Steps

variable {C : State → TtyId → Prop} {e e' : EchoLoop} {pending : List (BitVec 32 × ConsoleId)}
  {t : TtyId} {s : State}

/-- The step of the loop of `Tty.Echo`. -/
theorem EchoStep.loop (h : EchoStep C e e') (hinv : EchoInv e pending) :
    LoopStep e.toLoop e'.toLoop := by
  cases h with
  | irq scanCode hirq =>
    have hn := hinv.few
    obtain ⟨_, rfl⟩ := (keyboardHandler_ok_iff hinv.curPos (by omega)).mp hirq
    exact .irq scanCode
  | skip hpos hready => exact .skip hpos hready
  | read hpos hready hread => exact .read hpos hready hread
  | write hpos hwrite _ => exact .write hpos hwrite

/-- `tty_do_read` leaves the echo alone. -/
theorem EchoInv.read (h : EchoInv e []) (hpos : e.pos = .read t)
    (hread : ttyDoRead e.state t = some s) :
    ∃ pending, EchoInv { e with state := s, pos := .write t } pending ∧
      s.echoed = e.state.echoed := by
  obtain ⟨s', pending, hread', hinv, hwhat⟩ := h.loop.doRead hpos
  rw [hread] at hread'
  obtain rfl := Option.some.inj hread'
  rcases hwhat with ⟨rfl, _⟩ | ⟨_, _, rfl⟩
  · exact ⟨pending, ⟨hinv, h.video, h.curPos, h.few⟩, rfl⟩
  · obtain ⟨hvideo, hechoed⟩ := act_echo (s := e.state.scan) h.video t
      (keyAction e.state.altL e.state.scanCode)
    exact ⟨pending, ⟨hinv, hvideo, h.curPos, h.few⟩, hechoed⟩

/-- The key that is pending is the first one in the ring of the current terminal. -/
theorem EchoInv.key {key : BitVec 32} {c : ConsoleId} (h : EchoInv e [(key, c)])
    (hpos : e.pos = .write t) :
    c = t ∧ e.state.curTtyIndex = t.val ∧ (e.state.ttyTable t).inbuf.count ≠ 0 ∧
      (pop TTY_IN_BYTES_NUM (e.state.ttyTable t).inbuf).1 = key := by
  have htty : e.pos.tty = t := by
    rw [hpos]
    rfl
  have hring := h.loop.rings t
  rw [htty, if_pos rfl] at hring
  obtain ⟨hcur, hc⟩ := h.loop.here (key, c) List.mem_cons_self
  rw [htty] at hcur hc
  refine ⟨hc, hcur, ?_, (pop_holds hring).1⟩
  rw [hring.count]
  exact Nat.one_ne_zero

theorem EchoInv.prints {key : BitVec 32} {c : ConsoleId} (h : EchoInv e [(key, c)])
    (hpos : e.pos = .write t) :
    ttyDoWritePrints e.state t = e.state.toScreen.printed t (keyText key) := by
  obtain ⟨_, hcur, hcount, hkey⟩ := h.key hpos
  unfold ttyDoWritePrints
  rw [if_pos hcount, State.curTty_eq_some.mpr hcur]
  dsimp only
  rw [hkey, h.loop.console t]

/-- What `tty_do_write` does with the key that is pending. -/
theorem EchoInv.write (h : EchoInv e pending) (hpos : e.pos = .write t) :
    ∃ s, ttyDoWrite e.state t = some s ∧ LoopInv ⟨s, .read (t + 1)⟩ [] ∧ InVideo s.toScreen ∧
      s.typed = e.state.typed ∧ s.echoed = e.state.echoed ++ pending ∧
      (ttyDoWritePrints e.state t = echoOf pending ↔ KeyFits e.state t) := by
  obtain ⟨s, hwrite, hinv, htyped, _⟩ := h.loop.doWrite hpos
  have hechoed : s.echoed = e.state.echoed ++ pending := by
    have hafter := hinv.typed
    rw [List.append_nil, htyped, h.loop.typed] at hafter
    exact hafter.symm
  refine ⟨s, hwrite, hinv, ?_, htyped, hechoed, ?_⟩
  · by_cases hcount : (e.state.ttyTable t).inbuf.count = 0
    · rw [ttyDoWrite_empty hcount] at hwrite
      rw [← Option.some.inj hwrite]
      exact h.video
    · obtain ⟨cur, hcur⟩ := h.loop.current
      rw [ttyDoWrite_eq hcur hcount] at hwrite
      rw [← Option.some.inj hwrite]
      exact h.video.printKey _ _
  · match pending, h with
    | [], h =>
      have hring := h.loop.rings t
      rw [List.map_nil, ite_self] at hring
      have hcount : ¬ (e.state.ttyTable t).inbuf.count ≠ 0 := fun hne => hne hring.count
      exact iff_of_true (if_neg hcount) fun hne => absurd hne hcount
    | [(key, c)], h =>
      obtain ⟨rfl, hcur, hcount, hkey⟩ := h.key hpos
      have hpage : (e.state.consoleTable c).type = .text →
          (e.state.consoleTable c).place.OnPage := by
        intro htext
        refine h.video.onPage c ?_
        by_contra hge
        obtain rfl : c = 3 := Fin.ext (by omega)
        rw [h.video.graphic] at htext
        cases htext
      have hfits : KeyFits e.state c ↔ e.state.toScreen.HasRoom c (keyText key) := by
        unfold KeyFits
        simp only [State.curTty_eq_some.mpr hcur, Option.some.injEq, forall_eq', hkey,
          h.loop.console c]
        exact ⟨fun hroom => hroom hcount, fun hroom _ => hroom⟩
      rw [h.prints hpos, hfits, ← printed_key_iff hpage, echoOf, List.flatMap_singleton]
    | _ :: _ :: _, h => exact absurd h.loop.short (by simp)

theorem EchoInv.step (h : EchoInv e pending) (hstep : EchoStep C e e') :
    ∃ pending', EchoInv e' pending' := by
  cases hstep with
  | irq scanCode hirq =>
    have hn := h.few
    obtain ⟨hroom, rfl⟩ := (keyboardHandler_ok_iff h.curPos (by omega)).mp hirq
    refine ⟨pending, h.loop.irq scanCode, h.video, Handler.interrupt_curPos h.curPos scanCode, ?_⟩
    show e.interrupts + 1 ≤ 48566
    rcases hroom with hlt | ⟨heq, _⟩
    · omega
    · omega
  | skip hpos hready => exact ⟨[], h.loop.skip hpos _, h.video, h.curPos, h.few⟩
  | read hpos hready hread =>
    obtain rfl := h.loop.read _ hpos
    obtain ⟨pending', hinv, _⟩ := h.read hpos hread
    exact ⟨pending', hinv⟩
  | write hpos hwrite _ =>
    obtain ⟨s', hwrite', hinv, hvideo, _⟩ := h.write hpos
    rw [hwrite] at hwrite'
    obtain rfl := Option.some.inj hwrite'
    exact ⟨[], hinv, hvideo, h.curPos, h.few⟩

/-- While the keys fit, what has been taken out has been printed. -/
theorem EchoStep.printed_eq (hstep : EchoStep C e e') (hinv : EchoInv e pending)
    (hC : ∀ s t, C s t → KeyFits s t) (h : e.printed = echoOf e.state.echoed) :
    e'.printed = echoOf e'.state.echoed := by
  cases hstep with
  | irq scanCode hirq =>
    have hn := hinv.few
    obtain ⟨_, rfl⟩ := (keyboardHandler_ok_iff hinv.curPos (by omega)).mp hirq
    exact h
  | skip hpos hready => exact h
  | read hpos hready hread =>
    obtain rfl := hinv.loop.read _ hpos
    obtain ⟨_, _, hechoed⟩ := hinv.read hpos hread
    show e.printed = echoOf (State.echoed _)
    rw [hechoed]
    exact h
  | write hpos hwrite hfits =>
    obtain ⟨s', hwrite', _, _, _, hechoed, hprints⟩ := hinv.write hpos
    rw [hwrite] at hwrite'
    obtain rfl := Option.some.inj hwrite'
    show e.printed ++ _ = echoOf (State.echoed _)
    rw [hechoed, hprints.mpr (hC _ _ hfits), h]
    exact (List.flatMap_append ..).symm

theorem EchoStart.loopStart (h : EchoStart e) : LoopStart e.toLoop := by
  obtain ⟨s0, hcur, hmode, htyped, hechoed, _, hinit⟩ := h.init
  exact ⟨h.pos, s0, hcur, hmode, htyped, hechoed, hinit⟩

theorem EchoStart.echoInv (h : EchoStart e) : EchoInv e [] ∧ e.printed = echoOf e.state.echoed := by
  have hloop := h.loopStart.loopInv
  obtain ⟨s0, hcur, _, htyped, hechoed, hwritten, hinit⟩ := h.init
  rw [taskTtyInit_eq hcur] at hinit
  have hstate := (Option.some.inj hinit).symm
  refine ⟨⟨hloop, ?_, ?_, ?_⟩, ?_⟩
  · rw [hstate]
    exact (initConsole_inVideo hwritten).showTty 0 0
  · rw [h.curPos, h.interrupts]
    rfl
  · rw [h.interrupts]
    omega
  · rw [h.printed, hstate]
    show [] = echoOf s0.echoed
    rw [hechoed]
    rfl

end Steps

/-! ## Runs -/

section Runs

variable {C : State → TtyId → Prop} {e : EchoLoop}

theorem echoRun_inv (h : Reachable EchoStart (EchoStep C) e) : ∃ pending, EchoInv e pending :=
  h.invariant (I := fun e => ∃ pending, EchoInv e pending)
    (fun _ hstart => ⟨[], hstart.echoInv.1⟩) fun _ _ ⟨_, hinv⟩ hstep => hinv.step hstep

theorem echoRun_printed (h : Reachable EchoStart (EchoStep C) e)
    (hC : ∀ s t, C s t → KeyFits s t) : e.printed = echoOf e.state.echoed := by
  induction h with
  | init hstart => exact hstart.echoInv.2
  | step hrun hstep ih =>
    obtain ⟨pending, hinv⟩ := echoRun_inv hrun
    exact hstep.printed_eq hinv hC ih

end Runs

/-! ## One key after the other -/

/-- The first terminal is current, `n` interrupts have come and their codes have been
    read, and the cursor is at `p`. -/
structure OnFirst (e : EchoLoop) (pos : Pos) (pending : List (BitVec 32 × ConsoleId)) (n : ℕ)
    (p : Cursor) : Prop where
  inv : EchoInv e pending
  pos : e.pos = pos
  current : e.state.curTtyIndex = (0 : TtyId).val
  ready : ∀ t, (e.state.ttyTable t).ready = 1
  altL : e.state.altL = 0
  kbBuf : Ring.Holds KB_NUM e.state.kbBuf []
  interrupts : e.interrupts = n
  place : (e.state.consoleTable 0).place = p

section Passes

variable {C : State → TtyId → Prop} {e : EchoLoop} {n : ℕ} {p : Cursor} {t : TtyId}

/-- A text console that is full prints nothing. -/
theorem printed_full {s : Screen} {c : ConsoleId} (htext : (s.consoleTable c).type = .text)
    (hpage : (s.consoleTable c).place.OnPage) (hfull : 50 ≤ (s.consoleTable c).place.y)
    (str : List Byte) : s.printed c str = [] := by
  induction str generalizing s with
  | nil => rfl
  | cons ch str ih =>
    have hplace := printChar_place s c ch htext hpage
    rw [Cursor.type_of_full hfull] at hplace
    have htext' : ((s32ConsolePrintChar s c ch).consoleTable c).type = .text := by
      rw [(printChar_fixed s c ch c).2, htext]
    rw [Screen.printed, if_neg (mt (prints_text htext).mp (by omega)), List.nil_append]
    exact ih htext' (by rwa [hplace]) (by rwa [hplace])

theorem setTty_ready {s : State} {u : TtyId} {tty : Tty} (h : ∀ t, (s.ttyTable t).ready = 1)
    (htty : tty.ready = 1) (t : TtyId) : ((s.setTty u tty).ttyTable t).ready = 1 := by
  by_cases ht : t = u
  · rw [ht, State.setTty_self]
    exact htty
  · rw [State.setTty_of_ne _ _ ht]
    exact h t

/-- A pass over a terminal that is not current. -/
theorem OnFirst.idle (hC : ∀ s u, KeyFits s u → C s u) (h : OnFirst e (.read t) [] n p)
    (ht : t ≠ 0) :
    Relation.ReflTransGen (EchoStep C) e { e with pos := .read (t + 1) } ∧
      OnFirst { e with pos := .read (t + 1) } (.read (t + 1)) [] n p := by
  have hempty := (h.inv.loop.empty h.pos t).count
  have hread : ttyDoRead e.state t = some e.state := by
    refine if_neg fun hcur => ht ?_
    exact Fin.ext (Int.ofNat.inj (hcur.symm.trans h.current))
  have hfits : KeyFits e.state t := fun hne => absurd hempty hne
  have hprints : ttyDoWritePrints e.state t = [] := if_neg fun hne => hne hempty
  have hwrite : EchoStep C { e with pos := .write t } { e with pos := .read (t + 1) } := by
    have hstep := EchoStep.write (C := C) (e := { e with pos := .write t }) rfl
      (ttyDoWrite_empty hempty) (hC _ _ hfits)
    rwa [hprints, List.append_nil] at hstep
  refine ⟨(Relation.ReflTransGen.single (.read h.pos (h.ready t) hread)).tail hwrite, ?_⟩
  exact ⟨⟨h.inv.loop.skip h.pos _, h.inv.video, h.inv.curPos, h.inv.few⟩, rfl, h.current, h.ready,
    h.altL, h.kbBuf, h.interrupts, h.place⟩

/-- A key is pressed and read. -/
theorem OnFirst.type (h : OnFirst e (.read 0) [] n p) (hn : n < 48565) {code : Byte}
    {key : BitVec 32} (hkey : keyAction 0 code = .type key) (halt : altAfter code = 0) :
    ∃ e', Relation.ReflTransGen (EchoStep C) e e' ∧ OnFirst e' (.write 0) [(key, 0)] (n + 1) p ∧
      e'.state.typed = e.state.typed ++ [(key, 0)] ∧ e'.printed = e.printed := by
  set S := storeScanCode e.state code with hS
  have hcount := h.interrupts
  have hirq : keyboardHandler ⟨e.state, e.curPos, []⟩ code = .ok _ :=
    (keyboardHandler_ok_iff h.inv.curPos (by omega)).mpr ⟨.inl (by omega), rfl⟩
  have hpush : Ring.Holds KB_NUM S.kbBuf [code] := push_holds h.kbBuf (by decide)
  obtain ⟨hbytes, hcode, hrest, _⟩ := getByteFromKbBuf_holds hpush
  have hscan : S.scanCode = code := hcode
  have htype : act S.scan 0 (keyAction S.altL S.scanCode) =
      { putKey S.scan 0 key with typed := e.state.typed ++ [(key, 0)] } := by
    rw [show S.altL = 0 from h.altL, hscan, hkey]
    exact typeKey_eq (s := S) h.current (h.inv.loop.console 0) (h.inv.loop.empty h.pos 0) key
  have hread : ttyDoRead S 0 = some
      { act S.scan 0 (keyAction S.altL S.scanCode) with altL := altAfter S.scanCode } :=
    (if_pos (show isCurrentTty S 0 from h.current)).trans
      (keyboardRead_eq (s := S) (by exact h.current) hbytes 0)
  rw [htype, hscan, halt] at hread
  have hstep1 : EchoStep C e
      { e with
        state := S
        curPos := e.curPos + 3
        interrupts := e.interrupts + 1 } := .irq code hirq
  have hinv1 : EchoInv
      { e with
        state := S
        curPos := e.curPos + 3
        interrupts := e.interrupts + 1 } [] :=
    ⟨h.inv.loop.irq code, h.inv.video,
      Handler.interrupt_curPos (h := ⟨e.state, e.curPos, []⟩) h.inv.curPos code,
      show e.interrupts + 1 ≤ 48566 by omega⟩
  obtain ⟨pending, hinv2, hechoed⟩ := hinv1.read h.pos hread
  obtain rfl : pending = [(key, 0)] := by
    have htyped := hinv2.loop.typed
    have hbefore := h.inv.loop.typed
    rw [List.append_nil] at hbefore
    rw [show State.echoed _ = e.state.typed from hechoed.trans hbefore.symm] at htyped
    exact (List.append_cancel_left htyped).symm
  refine ⟨_, (Relation.ReflTransGen.single hstep1).tail (.read h.pos (h.ready 0) hread),
    ⟨hinv2, rfl, h.current, fun t => ?_, rfl, hrest, congrArg (· + 1) hcount, h.place⟩, rfl, rfl⟩
  show ((S.setTty 0 _).ttyTable t).ready = 1
  refine setTty_ready h.ready ?_ t
  exact h.ready 0

/-- The key is echoed. -/
theorem OnFirst.echo {key : BitVec 32} (h : OnFirst e (.write 0) [(key, 0)] n p)
    (hC : C e.state 0) :
    ∃ e', EchoStep C e e' ∧ OnFirst e' (.read 1) [] n (p.typeAll (keyText key)) ∧
      e'.state.typed = e.state.typed ∧
      e'.printed = e.printed ++ e.state.toScreen.printed 0 (keyText key) := by
  obtain ⟨s, hwrite, hloop, hvideo, htyped, _⟩ := h.inv.write h.pos
  obtain ⟨_, hcur, hcount, hkey⟩ := h.inv.key h.pos
  have hs := hwrite
  rw [ttyDoWrite_eq hcur hcount, hkey, h.inv.loop.console 0] at hs
  obtain rfl := Option.some.inj hs
  refine ⟨_, .write h.pos hwrite hC, ⟨⟨hloop, hvideo, h.inv.curPos, h.inv.few⟩, rfl, h.current,
    fun t => ?_, h.altL, h.kbBuf, h.interrupts, ?_⟩, htyped, ?_⟩
  · show ((e.state.setTty 0 _).ttyTable t).ready = 1
    refine setTty_ready h.ready ?_ t
    exact h.ready 0
  · show ((printKey e.state.toScreen 0 key).consoleTable 0).place = _
    rw [printKey_eq, printStr_place (h.inv.video.text 0 (by decide))
      (h.inv.video.onPage 0 (by decide)), h.place]
  · show e.printed ++ ttyDoWritePrints e.state 0 = _
    rw [h.inv.prints h.pos]

/-- A pass over all terminals in which a key is pressed: it is printed above line 50. -/
theorem OnFirst.pass (h : OnFirst e (.read 0) [] n p) (code : Byte) (key : BitVec 32)
    (hn : n < 48565) (hkey : keyAction 0 code = .type key) (halt : altAfter code = 0)
    (hidle : ∀ s u, KeyFits s u → C s u) (hC : p.y < 50 ∨ ∀ s u, C s u) :
    ∃ e', Relation.ReflTransGen (EchoStep C) e e' ∧
      OnFirst e' (.read 0) [] (n + 1) (p.typeAll (keyText key)) ∧
      e'.state.typed = e.state.typed ++ [(key, 0)] ∧
      e'.printed = e.printed ++ if p.y < 50 then echoOf [(key, 0)] else [] := by
  obtain ⟨e1, hrun1, h1, htyped1, hprinted1⟩ := h.type hn hkey halt
  have htext := h1.inv.video.text 0 (by decide)
  have hpage := h1.inv.video.onPage 0 (by decide)
  have hroom : e1.state.toScreen.HasRoom 0 (keyText key) ↔ p.y < 50 := by
    rw [Screen.HasRoom, htext, ← h1.place]
  have hprints : e1.state.toScreen.printed 0 (keyText key) =
      if p.y < 50 then echoOf [(key, 0)] else [] := by
    split_ifs with hline
    · exact ((printed_key_iff (fun _ => hpage) key).mpr (hroom.mpr hline)).trans
        (List.flatMap_singleton ..).symm
    · exact printed_full htext hpage (by rw [h1.place]; omega) _
  have hC1 : C e1.state 0 := by
    rcases hC with hline | hall
    · obtain ⟨_, _, _, _, _, _, hfits⟩ := h1.inv.write h1.pos
      refine hidle _ _ (hfits.mp ?_)
      rw [h1.inv.prints h1.pos, hprints, if_pos hline]
    · exact hall _ _
  obtain ⟨e2, hstep2, h2, htyped2, hprinted2⟩ := h1.echo hC1
  obtain ⟨hrun3, h3⟩ := h2.idle hidle (by decide)
  obtain ⟨hrun4, h4⟩ := h3.idle hidle (by decide)
  obtain ⟨hrun5, h5⟩ := h4.idle hidle (by decide)
  refine ⟨_, (((hrun1.tail hstep2).trans hrun3).trans hrun4).trans hrun5, h5,
    htyped2.trans htyped1, ?_⟩
  show e2.printed = _
  rw [hprinted2, hprinted1, hprints]

/-- The start. -/
theorem exists_start : ∃ e, EchoStart e ∧ OnFirst e (.read 0) [] 0 ⟨0, 2⟩ ∧ e.state.typed = [] ∧
    e.printed = [] := by
  obtain ⟨s, hinit⟩ : ∃ s, taskTtyInit bss = some s := ⟨_, taskTtyInit_eq rfl⟩
  have hstart : EchoStart ⟨⟨s, .read 0⟩, 0, 0, []⟩ :=
    ⟨rfl, ⟨bss, rfl, rfl, rfl, rfl, rfl, hinit⟩, rfl, rfl, rfl⟩
  have hinv := hstart.echoInv.1
  rw [taskTtyInit_eq rfl] at hinit
  obtain rfl := Option.some.inj hinit
  refine ⟨_, hstart, ⟨hinv, rfl, rfl, fun t => ?_, rfl, holds_empty _ (by decide), rfl, ?_⟩, rfl,
    rfl⟩
  · show ((initTtys bss).ttyTable t).ready = 1
    rw [initTtys_tty]
  · show ((showTty (initConsole bss.toScreen) 0 0).consoleTable 0).place = _
    rw [showTty_place]
    rfl

/-- `n` times Enter. -/
theorem enters (hidle : ∀ s u, KeyFits s u → C s u) (n : ℕ) (hn : n ≤ 48) :
    ∃ e, Reachable EchoStart (EchoStep C) e ∧ OnFirst e (.read 0) [] n ⟨0, 2 + n⟩ ∧
      e.state.typed = List.replicate n (KEY_ENTER, 0) ∧
      e.printed = echoOf (List.replicate n (KEY_ENTER, 0)) := by
  induction n with
  | zero =>
    obtain ⟨e, hstart, h, htyped, hprinted⟩ := exists_start
    exact ⟨e, .init hstart, h, htyped, hprinted⟩
  | succ n ih =>
    obtain ⟨e, hrun, h, htyped, hprinted⟩ := ih (by omega)
    have hline : 2 + n < 50 := by omega
    obtain ⟨e', hrun', h', htyped', hprinted'⟩ := h.pass 0x1c KEY_ENTER (by omega)
      (by decide) (by decide) hidle (.inl hline)
    have hplace : Cursor.typeAll ⟨0, 2 + n⟩ (keyText KEY_ENTER) = ⟨0, 2 + (n + 1)⟩ := by
      have hreturn : (Cursor.mk 0 (2 + n)).type CR = ⟨0, 2 + n⟩ := by
        rw [Cursor.type, if_neg (Nat.not_le.mpr hline), if_pos rfl]
      show ((Cursor.mk 0 (2 + n)).type CR).type LF = _
      rw [hreturn, Cursor.type, if_neg (Nat.not_le.mpr hline), if_neg (by decide), if_pos rfl]
      rfl
    rw [hplace] at h'
    refine ⟨e', hrun.extend hrun', h', ?_, ?_⟩
    · rw [htyped', htyped, List.replicate_succ']
    · rw [hprinted', hprinted, if_pos hline, List.replicate_succ']
      exact (List.flatMap_append ..).symm

end Passes

end Terminal

end SimpleOs
