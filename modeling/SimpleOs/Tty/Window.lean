import SimpleOs.Tty.VideoMemory

/-!
# The window on the current terminal

The CRTC shows the 25 lines of video memory behind its start address. They are
the last lines of the current terminal's console, with the cursor on them, as
long as the operations keep to `Follows`:

* `select_tty` programs the start of the console, without the lines it has
  scrolled;
* `s32_console_print_char` programs the lines a console has scrolled, without
  the start of the console, and moves the cursor to consoles that are not shown.

`windowRun_shows`: an operation outside `Follows` always loses the window.
-/

namespace SimpleOs

open ByteMem Ring Transition

/-! ## One console -/

/-- The window is on the console `c`: it starts at the console's first line, or at
    the line that has the cursor's line last, and the cursor is in it. -/
def Screen.Window (s : Screen) (c : ConsoleId) : Prop :=
  s.startAddr.toNat =
      ((s.consoleTable c).vmStart.toNat - 0xb8000) / 2 +
        80 * ((s.consoleTable c).curY.toNat - 24) ∧
    s.startAddr.toNat ≤ s.cursor.toNat ∧ s.cursor.toNat < s.startAddr.toNat + 80 * 25

/-- The number of the first character cell of the text console `c`. -/
def pageStart (c : ConsoleId) : ℕ := c.val * 5461

variable {s : Screen} {c cur : ConsoleId}

theorem InVideo.vmStart_cells (h : InVideo s) (hc : c.val < 3) :
    ((s.consoleTable c).vmStart.toNat - 0xb8000) / 2 = pageStart c := by
  rw [h.vmStart c hc, vmStart_toNat hc, videoRamSize_toNat]
  unfold pageStart
  omega

theorem InVideo.base_toNat (h : InVideo s) (hc : c.val < 3) :
    (s.consoleTable c).base.toNat = pageStart c := by
  have hvm := vmStart_toNat hc
  rw [videoRamSize_toNat] at hvm
  have hsub : ((s.consoleTable c).vmStart - 0xb8000).toNat = c.val * 10922 := by
    rw [h.vmStart c hc]
    bv_omega
  unfold Console.base pageStart
  rw [BitVec.toNat_udiv, hsub]
  show c.val * 10922 / 2 = c.val * 5461
  omega

/-- What the registers hold behind a text that ended at `p`, on a console `c` that
    took it. -/
structure Screen.Programmed (s : Screen) (c : ConsoleId) (p : Cursor) (start : ℕ) : Prop where
  cursor : s.cursor.toNat = pageStart c + (p.x + p.y * 80)
  startAddr : s.startAddr.toNat = if 25 ≤ p.y then 80 * (p.y - 24) else start

theorem printChar_programmed (h : InVideo s) (hacc : s.Accepts c) (ch : Byte) :
    (s32ConsolePrintChar s c ch).Programmed c ((s.consoleTable c).place.type ch)
      s.startAddr.toNat := by
  have hc := h.accepts hacc
  have hbase := h.base_toNat hc
  have hpage := h.onPage c hc
  have hplace := Console.putChar_place hpage hacc.2 ch
  obtain ⟨hx, hy⟩ := hpage.type ch
  obtain ⟨hcursor, hstart⟩ := (printChar_registers s c ch).1 hacc
  rw [← hplace] at hx hy ⊢
  generalize (s.consoleTable c).putChar ch = con at hcursor hstart hx hy ⊢
  have hx' : con.curX.toNat < 80 := hx
  have hy' : con.curY.toNat ≤ 50 := hy
  have hpage' : pageStart c < 3 * 5461 := by
    unfold pageStart
    omega
  refine ⟨?_, ?_⟩
  · show _ = pageStart c + (con.curX.toNat + con.curY.toNat * 80)
    rw [hcursor]
    bv_omega
  · show _ = if 25 ≤ con.curY.toNat then 80 * (con.curY.toNat - 24) else _
    have hscroll : 25 ≤ con.curY ↔ 25 ≤ con.curY.toNat := BitVec.le_def
    rw [hstart]
    simp only [hscroll]
    split_ifs with hlast
    · bv_omega
    · rfl

/-- The registers behind a text are those behind its last character that was typed. -/
theorem printStr_programmed (h : InVideo s) (hacc : s.Accepts c) {str : List Byte}
    (hne : str ≠ []) :
    (s32ConsolePrintStr s c str).Programmed c ((s.consoleTable c).place.typeAll str)
      s.startAddr.toNat := by
  induction str generalizing s with
  | nil => exact absurd rfl hne
  | cons ch str ih =>
    have hc := h.accepts hacc
    have hfirst := printChar_programmed h hacc ch
    have hplace := printChar_place s c ch hacc.1 (h.onPage c hc)
    have h' := h.printChar c ch
    show (s32ConsolePrintStr (s32ConsolePrintChar s c ch) c str).Programmed c
      (((s.consoleTable c).place.type ch).typeAll str) s.startAddr.toNat
    by_cases hrest : str = []
    · subst hrest
      exact hfirst
    · rw [← hplace]
      by_cases hacc' : (s32ConsolePrintChar s c ch).Accepts c
      · obtain ⟨hcursor, hstart⟩ := ih h' hacc' hrest
        refine ⟨hcursor, hstart.trans ?_⟩
        have hmono := Cursor.le_typeAll ((s32ConsolePrintChar s c ch).consoleTable c).place str
        have hbefore := hfirst.startAddr
        rw [← hplace] at hbefore
        split_ifs with hscroll
        · rfl
        · rw [hbefore, if_neg (by omega)]
      · -- the page is full: the rest of the text is not typed
        have hfull : 50 ≤ ((s32ConsolePrintChar s c ch).consoleTable c).place.y := by
          by_contra hroom
          exact hacc' ⟨h'.text c hc, fun hle => hroom (BitVec.le_def.mp hle)⟩
        obtain ⟨hcursor, hstart⟩ := printStr_of_not_accepts hacc' str
        rw [Cursor.typeAll_of_full hfull, hplace]
        exact ⟨by rw [hcursor]; exact hfirst.cursor, by rw [hstart]; exact hfirst.startAddr⟩

/-! ## A text on some console -/

/-- What a text on the console `c` must do for the window to stay on `cur`: nothing,
    or be for `cur` and not scroll, unless `cur` is the first console. -/
def Screen.Keeps (s : Screen) (cur c : ConsoleId) (text : List Byte) : Prop :=
  text ≠ [] → s.Accepts c →
    c = cur ∧ (cur = 0 ∨ ((s.consoleTable c).place.typeAll text).y ≤ 24)

/-- The window is on `cur`, and only the first console has scrolled when it is shown. -/
structure Screen.ShowsConsole (s : Screen) (cur : ConsoleId) : Prop where
  text : cur.val < 3
  window : s.Window cur
  unscrolled : cur = 0 ∨ (s.consoleTable cur).place.y ≤ 24

theorem window_iff (h : InVideo s) (hc : c.val < 3) :
    s.Window c ↔
      s.startAddr.toNat = pageStart c + 80 * ((s.consoleTable c).place.y - 24) ∧
        s.startAddr.toNat ≤ s.cursor.toNat ∧ s.cursor.toNat < s.startAddr.toNat + 80 * 25 := by
  unfold Screen.Window
  rw [h.vmStart_cells hc]
  rfl

/-- A text that is typed on the shown console. -/
theorem window_typed (h : InVideo s) (hshow : s.ShowsConsole cur) (hacc : s.Accepts cur)
    {text : List Byte} (hne : text ≠ []) :
    (s32ConsolePrintStr s cur text).Window cur ↔
      cur = 0 ∨ ((s.consoleTable cur).place.typeAll text).y ≤ 24 := by
  have hc := hshow.text
  have hpage := h.onPage cur hc
  obtain ⟨hcursor, hstart⟩ := printStr_programmed h hacc hne
  obtain ⟨hbefore, _⟩ := (window_iff h hc).mp hshow.window
  have hmono := Cursor.le_typeAll (s.consoleTable cur).place text
  obtain ⟨hx, hy⟩ := hpage.typeAll text
  rw [window_iff (h.printStr cur text) hc, printStr_place (h.text cur hc) hpage]
  have hzero : cur = 0 ↔ pageStart cur = 0 := by
    rw [Fin.ext_iff]
    unfold pageStart
    show cur.val = 0 ↔ _
    omega
  rw [hzero]
  generalize (s.consoleTable cur).place.typeAll text = p at *
  split_ifs at hstart with hscroll
  · omega
  · omega

/-- A text that is typed on another console takes the cursor along. -/
theorem window_lost (h : InVideo s) (hcur : cur.val < 3) (hacc : s.Accepts c) (hne : c ≠ cur)
    {text : List Byte} (htext : text ≠ []) : ¬ (s32ConsolePrintStr s c text).Window cur := by
  have hc := h.accepts hacc
  obtain ⟨hcursor, _⟩ := printStr_programmed h hacc htext
  obtain ⟨hx, hy⟩ := (h.onPage c hc).typeAll text
  have hline : (s.consoleTable cur).place.y ≤ 50 := (h.onPage cur hcur).2
  have hval : c.val ≠ cur.val := fun hval => hne (Fin.ext hval)
  rw [window_iff (h.printStr c text) hcur, printStr_of_ne s c hne.symm]
  unfold pageStart at *
  omega

/-- Whatever is printed, the window stays on the shown console if and only if the text
    keeps it. -/
theorem window_text (h : InVideo s) (hshow : s.ShowsConsole cur) (c : ConsoleId)
    (text : List Byte) :
    (s32ConsolePrintStr s c text).Window cur ↔ s.Keeps cur c text := by
  unfold Screen.Keeps
  by_cases hne : text = []
  · subst hne
    exact iff_of_true hshow.window fun h => absurd rfl h
  by_cases hacc : s.Accepts c
  · by_cases hcur : c = cur
    · subst hcur
      rw [window_typed h hshow hacc hne]
      exact ⟨fun hkeep _ _ => ⟨rfl, hkeep⟩, fun hkeep => (hkeep hne hacc).2⟩
    · refine iff_of_false (window_lost h hshow.text hacc hcur hne) fun hkeep => hcur ?_
      exact (hkeep hne hacc).1
  · -- nothing is programmed, and the shown console does not move
    obtain ⟨hcursor, hstart⟩ := printStr_of_not_accepts hacc text
    have hplace : ((s32ConsolePrintStr s c text).consoleTable cur).place =
        (s.consoleTable cur).place := by
      by_cases hcur : c = cur
      · subst hcur
        have hfull : 50 ≤ (s.consoleTable c).place.y := by
          by_contra hroom
          exact hacc ⟨h.text c hshow.text, fun hle => hroom (BitVec.le_def.mp hle)⟩
        rw [printStr_place (h.text c hshow.text) (h.onPage c hshow.text),
          Cursor.typeAll_of_full hfull]
      · rw [printStr_of_ne s c (Ne.symm hcur)]
    refine iff_of_true ?_ fun _ hacc' => absurd hacc' hacc
    rw [window_iff (h.printStr c text) hshow.text, hcursor, hstart, hplace]
    exact (window_iff h hshow.text).mp hshow.window

theorem Screen.ShowsConsole.printStr (h : InVideo s) (hshow : s.ShowsConsole cur)
    {text : List Byte} (hkeep : s.Keeps cur c text) :
    (s32ConsolePrintStr s c text).ShowsConsole cur := by
  refine ⟨hshow.text, (window_text h hshow c text).mpr hkeep, ?_⟩
  rcases hshow.unscrolled with hzero | hline
  · exact .inl hzero
  by_cases hcur : c = cur
  · subst hcur
    have hpage := h.onPage c hshow.text
    rw [printStr_place (h.text c hshow.text) hpage]
    by_cases hne : text = []
    · subst hne
      exact .inr hline
    · have hroom : ¬ 50 ≤ (s.consoleTable c).curY := fun hle => by
        have hfull : 50 ≤ (s.consoleTable c).place.y := BitVec.le_def.mp hle
        omega
      exact (hkeep hne ⟨h.text c hshow.text, hroom⟩).2
  · rw [printStr_of_ne s c (Ne.symm hcur)]
    exact .inr hline

/-! ## `select_tty` -/

/-- The cursors are where they were. -/
theorem showTty_place (s : Screen) (t : TtyId) (c d : ConsoleId) :
    ((Terminal.showTty s t c).consoleTable d).place = (s.consoleTable d).place := by
  rw [Terminal.showTty_eq]
  generalize Terminal.header t = str
  by_cases hd : d = c
  · subst hd
    show (((s32ConsolePrintStr (s.setXy d 0 0) d str).setXy d (s.consoleTable d).curX
      (s.consoleTable d).curY).consoleTable d).place = (s.consoleTable d).place
    rw [Screen.setXy, Screen.setConsole_self]
    rfl
  · show (((s32ConsolePrintStr (s.setXy c 0 0) c str).setXy c (s.consoleTable c).curX
      (s.consoleTable c).curY).consoleTable d).place = (s.consoleTable d).place
    rw [Screen.setXy, Screen.setConsole_of_ne _ _ hd, printStr_of_ne _ c hd, Screen.setXy,
      Screen.setConsole_of_ne _ _ hd]

/-- The window starts where the console starts. -/
theorem showTty_registers (h : InVideo s) (hc : c.val < 3) (t : TtyId) :
    (Terminal.showTty s t c).startAddr.toNat = pageStart c ∧
      (Terminal.showTty s t c).cursor.toNat =
        pageStart c + ((s.consoleTable c).place.x + (s.consoleTable c).place.y * 80) := by
  have hbase := h.base_toNat hc
  obtain ⟨hx, hy⟩ := h.onPage c hc
  have hx' : (s.consoleTable c).curX.toNat < 80 := hx
  have hy' : (s.consoleTable c).curY.toNat ≤ 50 := hy
  have hpage : pageStart c < 3 * 5461 := by
    unfold pageStart
    omega
  have hstart : ((s.consoleTable c).base.setWidth 16).toNat = pageStart c := by
    rw [BitVec.toNat_setWidth, hbase]
    omega
  rw [Terminal.showTty_eq]
  refine ⟨hstart, ?_⟩
  show ((((s.consoleTable c).base.setWidth 16).setWidth 32 + (s.consoleTable c).curX +
    (s.consoleTable c).curY * 80).setWidth 16).toNat =
      pageStart c + ((s.consoleTable c).curX.toNat + (s.consoleTable c).curY.toNat * 80)
  bv_omega

theorem window_showTty (h : InVideo s) (hc : c.val < 3) (t : TtyId) :
    (Terminal.showTty s t c).Window c ↔ (s.consoleTable c).place.y ≤ 24 := by
  obtain ⟨hstart, hcursor⟩ := showTty_registers h hc t
  obtain ⟨hx, hy⟩ := h.onPage c hc
  rw [window_iff (h.showTty t c) hc, showTty_place, hstart, hcursor]
  omega

namespace Terminal

/-! ## Runs -/

/-- The screen shows the current terminal. -/
def Shows (s : State) : Prop :=
  ∃ t, s.curTty = some t ∧ s.toScreen.Window (s.ttyTable t).console

/-- The operation keeps the window: a terminal is selected before its console has
    scrolled; what is printed on a console that still takes characters is for the
    console of the current terminal, and does not scroll it, unless that is the
    first. -/
def Follows (s : State) : TtyOp → Prop
  | .select i => (s.consoleTable (s.ttyTable i.castSucc).console).place.y ≤ 24
  | .key _ _ => True
  | .echo t => (s.ttyTable t).inbuf.count ≠ 0 → ∀ cur, s.curTty = some cur →
      s.toScreen.Keeps (s.ttyTable cur).console (s.ttyTable cur).console
        (keyText (pop TTY_IN_BYTES_NUM (s.ttyTable t).inbuf).1)
  | .write t buf => ∀ cur, s.curTty = some cur →
      s.toScreen.Keeps (s.ttyTable cur).console (s.ttyTable t).console buf

/-- `task_tty` has set up the terminals and selected the first. -/
def Started (s : State) : Prop :=
  ∃ s0 : State, s0.written = [] ∧ s0.curTtyIndex = 0 ∧ taskTtyInit s0 = some s

/-- What holds as long as the operations keep to `Follows`. -/
structure WindowInv (s : State) : Prop where
  video : InVideo s.toScreen
  tty : ∀ t, (s.ttyTable t).console = t ∧ (s.ttyTable t).ready = 1
  shows : ∃ cur : TtyId, s.curTtyIndex = cur.val ∧ s.toScreen.ShowsConsole cur

theorem shows_iff {s : State} {cur : TtyId} (htty : ∀ t, (s.ttyTable t).console = t)
    (hcur : s.curTtyIndex = cur.val) : Shows s ↔ s.toScreen.Window cur := by
  unfold Shows
  constructor
  · rintro ⟨t, ht, hwindow⟩
    rw [State.curTty_eq_some.mpr hcur] at ht
    obtain rfl := Option.some.inj ht
    rwa [htty] at hwindow
  · intro hwindow
    refine ⟨cur, State.curTty_eq_some.mpr hcur, ?_⟩
    rwa [htty]

theorem WindowInv.shown {s : State} (h : WindowInv s) : Shows s := by
  obtain ⟨cur, hcur, hshow⟩ := h.shows
  exact (shows_iff (fun t => (h.tty t).1) hcur).mpr hshow.window

theorem WindowInv.of_text {s s' : State} (h : WindowInv s) {cur : TtyId} {c : ConsoleId}
    {text : List Byte} (hshow : s.toScreen.ShowsConsole cur)
    (hscreen : s'.toScreen = s32ConsolePrintStr s.toScreen c text)
    (hcur' : s'.curTtyIndex = cur.val)
    (htty : ∀ t, (s'.ttyTable t).console = t ∧ (s'.ttyTable t).ready = 1) :
    (Shows s' ↔ s.toScreen.Keeps cur c text) ∧ (s.toScreen.Keeps cur c text → WindowInv s') := by
  rw [shows_iff (fun t => (htty t).1) hcur', hscreen]
  refine ⟨window_text h.video hshow c text, fun hkeep => ⟨?_, htty, cur, hcur', ?_⟩⟩
  · rw [hscreen]
    exact h.video.printStr c text
  · rw [hscreen]
    exact hshow.printStr h.video hkeep

/-- A ring does not make another terminal of a terminal. -/
theorem setTty_tty {s : State} (htty : ∀ t, (s.ttyTable t).console = t ∧ (s.ttyTable t).ready = 1)
    (t : TtyId) (inbuf : RingBuffer (BitVec 32)) (u : TtyId) :
    ((s.setTty t { s.ttyTable t with inbuf := inbuf }).ttyTable u).console = u ∧
      ((s.setTty t { s.ttyTable t with inbuf := inbuf }).ttyTable u).ready = 1 := by
  obtain ⟨hconsole, hready⟩ := htty u
  by_cases hu : u = t
  · subst hu
    rw [State.setTty_self]
    exact ⟨hconsole, hready⟩
  · rw [State.setTty_of_ne _ _ hu]
    exact ⟨hconsole, hready⟩

/-- The step lemma: the operation keeps the window if and only if it keeps to
    `Follows`. -/
theorem WindowInv.perform {s s' : State} {op : TtyOp} (h : WindowInv s)
    (hop : op.perform s = some s') :
    (Shows s' ↔ Follows s op) ∧ (Follows s op → WindowInv s') := by
  obtain ⟨cur, hcur, hshow⟩ := h.shows
  have hsome : s.curTty = some cur := State.curTty_eq_some.mpr hcur
  have hconsole : ∀ t, (s.ttyTable t).console = t := fun t => (h.tty t).1
  cases op with
  | select i =>
    have hfollows : Follows s (.select i) ↔ (s.consoleTable i.castSucc).place.y ≤ 24 := by
      unfold Follows
      dsimp only
      rw [hconsole]
    have hsel := selectTty_eq (t := i.castSucc) hcur
    rw [hconsole] at hsel
    rw [TtyOp.perform, show (i.val : ℤ) = ((i.castSucc : TtyId).val : ℤ) from rfl, hsel,
      Option.map_some] at hop
    have htext : (i.castSucc : TtyId).val < 3 := i.isLt
    generalize (i.castSucc : TtyId) = t at hfollows hop htext
    obtain rfl := Option.some.inj hop
    have hiff : Shows { s with curTtyIndex := t.val, toScreen := showTty s.toScreen t t } ↔
        (showTty s.toScreen t t).Window t := shows_iff hconsole rfl
    dsimp only
    rw [hfollows, hiff]
    refine ⟨window_showTty h.video htext t, fun hline => ⟨h.video.showTty t t, h.tty, t, rfl, ?_⟩⟩
    refine ⟨htext, (window_showTty h.video htext t).mpr hline, .inr ?_⟩
    rw [showTty_place]
    exact hline
  | key t ch =>
    obtain rfl := Option.some.inj hop
    have hinv : WindowInv (putKey s t ch) :=
      ⟨h.video, setTty_tty h.tty t _, cur, hcur, hshow⟩
    exact ⟨iff_of_true hinv.shown trivial, fun _ => hinv⟩
  | echo t =>
    rw [TtyOp.perform] at hop
    by_cases hcount : (s.ttyTable t).inbuf.count = 0
    · rw [ttyDoWrite_empty hcount] at hop
      obtain rfl := Option.some.inj hop
      exact ⟨iff_of_true h.shown fun hne => absurd hcount hne, fun _ => h⟩
    · rw [ttyDoWrite_eq hcur hcount] at hop
      obtain rfl := Option.some.inj hop
      have hfollows : Follows s (.echo t) ↔ s.toScreen.Keeps cur cur
          (keyText (pop TTY_IN_BYTES_NUM (s.ttyTable t).inbuf).1) := by
        unfold Follows
        simp only [hsome, Option.some.injEq, forall_eq', hconsole]
        exact ⟨fun hall => hall hcount, fun hkeep _ => hkeep⟩
      rw [hfollows]
      refine h.of_text hshow ?_ hcur (setTty_tty h.tty t _)
      rw [printKey_eq, hconsole]
  | write t buf =>
    obtain rfl := Option.some.inj hop
    have hfollows : Follows s (.write t buf) ↔ s.toScreen.Keeps cur t buf := by
      unfold Follows
      simp only [hsome, Option.some.injEq, forall_eq', hconsole]
    rw [hfollows]
    refine h.of_text hshow ?_ ?_ ?_
    · rw [ttyWrite_eq (h.tty t).2, State.withScreen_toScreen, hconsole]
    · rw [ttyWrite_eq (h.tty t).2]
      exact hcur
    · rw [ttyWrite_eq (h.tty t).2]
      exact h.tty

theorem Started.windowInv {s : State} (h : Started s) : WindowInv s := by
  obtain ⟨s0, hwritten, hzero, hinit⟩ := h
  have hvideo : InVideo (initConsole s0.toScreen) := initConsole_inVideo hwritten
  have hline : ((initConsole s0.toScreen).consoleTable 0).place.y ≤ 24 := by
    show 2 ≤ 24
    omega
  rw [taskTtyInit_eq hzero] at hinit
  obtain rfl := Option.some.inj hinit
  refine ⟨hvideo.showTty 0 0, fun t => ?_, 0, rfl, by decide, ?_, .inl rfl⟩
  · show ((initTtys s0).ttyTable t).console = t ∧ ((initTtys s0).ttyTable t).ready = 1
    rw [initTtys_tty]
    exact ⟨rfl, rfl⟩
  · exact (window_showTty hvideo (by decide) 0).mpr hline

/-- In every run that keeps to `Follows` the screen shows the current terminal in every
    state, and the first operation outside `Follows` loses it. -/
theorem windowRun_shows {s : State}
    (h : Reachable Started (fun s s' => ∃ op, Follows s op ∧ TtyOp.perform s op = some s') s) :
    Shows s ∧ ∀ op s', TtyOp.perform s op = some s' → (Shows s' ↔ Follows s op) := by
  have hinv : WindowInv s := h.invariant (fun _ => Started.windowInv)
    fun s s' hs ⟨op, hfollows, hop⟩ => (hs.perform hop).2 hfollows
  exact ⟨hinv.shown, fun op s' hop => (hinv.perform hop).1⟩

theorem started_bss : ∃ s, taskTtyInit bss = some s ∧ Started s :=
  ⟨_, taskTtyInit_eq rfl, bss, rfl, rfl, taskTtyInit_eq rfl⟩

/-- A run: a process prints a line on the first terminal. -/
theorem windowRun_shows_first : ∃ s s', taskTtyInit bss = some s ∧
    TtyOp.perform s (.write 0 [0x41, CR, LF]) = some s' ∧
    Shows s' ∧ ∀ op s'', TtyOp.perform s' op = some s'' → (Shows s'' ↔ Follows s' op) := by
  obtain ⟨s, hinit, hs⟩ := started_bss
  have hcur : s.curTtyIndex = (0 : TtyId).val := by
    rw [taskTtyInit_eq rfl] at hinit
    obtain rfl := Option.some.inj hinit
    rfl
  have htty := hs.windowInv.tty
  refine ⟨s, _, hinit, rfl, windowRun_shows (.step (.init hs) ⟨.write 0 [0x41, CR, LF], ?_, rfl⟩)⟩
  intro cur hsome _ _
  rw [State.curTty_eq_some.mpr hcur] at hsome
  obtain rfl := Option.some.inj hsome
  exact ⟨rfl, .inl (htty 0).1⟩

/-- A process that prints a character on the second terminal while the first is shown
    takes the cursor there. -/
theorem background_write_moves_cursor : ∃ s s', taskTtyInit bss = some s ∧
    TtyOp.perform s (.write 1 [0x41]) = some s' ∧ ¬ Shows s' := by
  obtain ⟨s, hinit, hs⟩ := started_bss
  have hinv := hs.windowInv
  rw [taskTtyInit_eq rfl] at hinit
  have hscreen : s.toScreen = showTty (initConsole bss.toScreen) 0 0 :=
    congrArg State.toScreen (Option.some.inj hinit).symm
  have hcur : s.curTty = some 0 := by
    rw [State.curTty_eq_some, ← Option.some.inj hinit]
  have hplace : (s.consoleTable 1).place = ⟨0, 2⟩ := by
    rw [hscreen, showTty_place]
    rfl
  have hacc : s.toScreen.Accepts 1 := by
    refine ⟨hinv.video.text 1 (by decide), fun hfull => ?_⟩
    have hle : 50 ≤ (s.consoleTable 1).place.y := BitVec.le_def.mp hfull
    rw [hplace] at hle
    exact absurd hle (by decide)
  rw [← taskTtyInit_eq rfl] at hinit
  refine ⟨s, _, hinit, rfl, fun hshows => ?_⟩
  have hop : TtyOp.perform s (.write 1 [0x41]) = some _ := rfl
  have hkeep := (hinv.perform hop).1.mp hshows 0 hcur
  rw [(hinv.tty 0).1, (hinv.tty 1).1] at hkeep
  have hne := (hkeep (by simp) hacc).1
  exact absurd hne (by decide)

end Terminal

end SimpleOs
