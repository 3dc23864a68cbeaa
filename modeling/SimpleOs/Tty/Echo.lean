import SimpleOs.Tty.Keyboard
import SimpleOs.Lib.Transition

/-!
# The echo of the keys

The loop of `task_tty` (tty/tty.c:168-181) with the keyboard interrupt. A pass over a
terminal is two steps, `tty_do_read` and `tty_do_write`; an interrupt may come before
each, and what it may do in the middle of one it may as well do before or after, since
the two share nothing but `kb_buf`, which `get_byte_from_kb_buf` takes a byte from with
interrupts off. What the interrupt shows and the counter in line 23 are left out.

* `loopRun_inv`: at most one key is typed and not yet echoed, on the current terminal.
* `echoRun_shown`: what the echo shows, while a text terminal stays current.
-/

namespace SimpleOs

open ByteMem Ring Transition

namespace Terminal

/-! ## The loop -/

/-- What the loop does next. -/
inductive Pos where
  | read (t : TtyId)
  | write (t : TtyId)

/-- The terminal of the pass. -/
def Pos.tty : Pos → TtyId
  | .read t => t
  | .write t => t

structure Loop where
  state : State
  pos : Pos

inductive LoopStep (l : Loop) : Loop → Prop
  | irq (scanCode : Byte) : LoopStep l { l with state := storeScanCode l.state scanCode }
  | skip {t : TtyId} (hpos : l.pos = .read t) (hready : (l.state.ttyTable t).ready ≠ 1) :
      LoopStep l { l with pos := .read (t + 1) }
  | read {t : TtyId} {s : State} (hpos : l.pos = .read t)
      (hready : (l.state.ttyTable t).ready = 1) (hread : ttyDoRead l.state t = some s) :
      LoopStep l ⟨s, .write t⟩
  | write {t : TtyId} {s : State} (hpos : l.pos = .write t)
      (hwrite : ttyDoWrite l.state t = some s) : LoopStep l ⟨s, .read (t + 1)⟩

/-- `task_tty` has set up the terminals. -/
def LoopStart (l : Loop) : Prop :=
  l.pos = .read 0 ∧ ∃ s0 : State, s0.curTtyIndex = 0 ∧ s0.vgaMode = TEXT_MODE ∧
    s0.typed = [] ∧ s0.echoed = [] ∧ taskTtyInit s0 = some l.state

/-! ## What is typed is echoed -/

/-- `pending` has been typed and not been echoed: at most one key, in the ring of the
    terminal of this pass, which is the current one. -/
structure LoopInv (l : Loop) (pending : List (BitVec 32 × ConsoleId)) : Prop where
  current : ∃ cur : TtyId, l.state.curTtyIndex = cur.val
  mode : l.state.curTtyIndex ≠ 3 → l.state.vgaMode = TEXT_MODE
  console : ∀ t, (l.state.ttyTable t).console = t
  read : ∀ t, l.pos = .read t → pending = []
  short : pending.length ≤ 1
  rings : ∀ t, Ring.Holds TTY_IN_BYTES_NUM (l.state.ttyTable t).inbuf
    (if t = l.pos.tty then pending.map Prod.fst else [])
  typed : l.state.typed = l.state.echoed ++ pending
  here : ∀ p ∈ pending, l.state.curTtyIndex = l.pos.tty.val ∧ p.2 = l.pos.tty

/-- A key is typed into an empty ring of the current terminal. -/
theorem typeKey_eq {s : State} {t : TtyId} (hcur : s.curTtyIndex = t.val)
    (hconsole : (s.ttyTable t).console = t)
    (hring : Ring.Holds TTY_IN_BYTES_NUM (s.ttyTable t).inbuf []) (key : BitVec 32) :
    typeKey s.scan t key =
      { putKey s.scan t key with typed := s.typed ++ [(key, t)] } := by
  have hsome : s.scan.curTty = some t := State.curTty_eq_some.mpr hcur
  have hroom : (s.scan.ttyTable t).inbuf.count < TTY_IN_BYTES_NUM := by
    show (s.ttyTable t).inbuf.count < TTY_IN_BYTES_NUM
    rw [hring.count]
    decide
  unfold typeKey
  rw [hsome]
  dsimp only
  rw [if_pos hroom]
  show { putKey s.scan t key with typed := s.typed ++ [(key, (s.ttyTable t).console)] } = _
  rw [hconsole]

/-- Nothing is in any ring when a pass begins. -/
theorem LoopInv.empty {l : Loop} {pending : List (BitVec 32 × ConsoleId)} (h : LoopInv l pending)
    {t : TtyId} (hpos : l.pos = .read t) (u : TtyId) :
    Ring.Holds TTY_IN_BYTES_NUM (l.state.ttyTable u).inbuf [] := by
  have hring := h.rings u
  rw [h.read t hpos] at hring
  split_ifs at hring <;> exact hring

/-- The key an action leaves in the ring of the terminal `t`. -/
def KeyAction.pending (t : TtyId) : KeyAction → List (BitVec 32 × ConsoleId)
  | .type key => [(key, t)]
  | _ => []

/-- What an action passes to the console of the terminal `c` at once, when `c` stays
    current. -/
def KeyAction.output (c : TtyId) : KeyAction → List (ConsoleId × Byte)
  | .switch _ => (header c).map fun ch => (c, ch)
  | _ => []

/-- An action of the current terminal, when a pass over it has begun. -/
theorem LoopInv.doAct {l : Loop} (h : LoopInv l []) {t : TtyId} (hpos : l.pos = .read t)
    (hcur : l.state.curTtyIndex = t.val) (action : KeyAction) (altL : Byte) :
    LoopInv ⟨{ act l.state.scan t action with altL := altL }, .write t⟩ (action.pending t) := by
  have hring := h.empty hpos
  have hrings : ∀ u, Ring.Holds TTY_IN_BYTES_NUM (l.state.ttyTable u).inbuf
      (if u = t then List.map Prod.fst ([] : List (BitVec 32 × ConsoleId)) else []) := by
    intro u
    rw [List.map_nil, ite_self]
    exact hring u
  cases action with
  | switch u =>
    obtain ⟨screen, vga, hswitch, hvga⟩ := switchTo_eq l.state.scan u
    show LoopInv ⟨{ switchTo l.state.scan u with altL := _ }, _⟩ []
    rw [hswitch]
    refine ⟨⟨u, rfl⟩, fun hne => hvga fun hu => hne ?_, h.console, fun _ hnot => (nomatch hnot),
      Nat.zero_le 1, hrings, h.typed, fun p hp => nomatch hp⟩
    rw [hu]
    rfl
  | type key =>
    have htype : typeKey l.state.scan t key =
        { putKey l.state.scan t key with typed := l.state.typed ++ [(key, t)] } :=
      typeKey_eq hcur (h.console t) (hring t) key
    show LoopInv ⟨{ typeKey l.state.scan t key with altL := _ }, _⟩ [(key, t)]
    rw [htype]
    refine ⟨h.current, h.mode, fun u => ?_, fun _ hnot => (nomatch hnot), Nat.le_refl 1,
      fun u => ?_, ?_, fun p hp => ?_⟩
    · show ((putKey l.state.scan t key).ttyTable u).console = u
      rw [putKey, State.setTty_console]
      exact h.console u
    · show Ring.Holds TTY_IN_BYTES_NUM ((putKey l.state.scan t key).ttyTable u).inbuf
        (if u = t then [key] else [])
      by_cases hu : u = t
      · subst hu
        rw [putKey, State.setTty_self, if_pos rfl]
        exact push_holds (hring u) (by decide)
      · rw [putKey, State.setTty_of_ne _ _ hu, if_neg hu]
        exact hring u
    · show l.state.typed ++ [(key, t)] = l.state.echoed ++ [(key, t)]
      rw [h.typed, List.append_nil]
    · obtain rfl := List.mem_singleton.mp hp
      exact ⟨hcur, rfl⟩
  | nothing =>
    exact ⟨h.current, h.mode, h.console, fun _ hnot => (nomatch hnot), Nat.zero_le 1, hrings,
      h.typed, fun p hp => nomatch hp⟩

/-- What `tty_do_read` does: nothing, or what a scan code makes it do. -/
theorem LoopInv.doRead {l : Loop} (h : LoopInv l []) {t : TtyId} (hpos : l.pos = .read t) :
    ∃ s pending, ttyDoRead l.state t = some s ∧ LoopInv ⟨s, .write t⟩ pending ∧
      ((s = l.state ∧ pending = []) ∨
        (l.state.curTtyIndex = t.val ∧
          pending = (keyAction l.state.altL l.state.scanCode).pending t ∧
          s = { act l.state.scan t (keyAction l.state.altL l.state.scanCode) with
            altL := altAfter l.state.scanCode })) := by
  obtain ⟨cur, hcur⟩ := h.current
  have hsame : LoopInv ⟨l.state, .write t⟩ [] := by
    refine ⟨h.current, h.mode, h.console, fun _ hnot => (nomatch hnot), Nat.zero_le 1, fun u => ?_,
      h.typed, fun p hp => nomatch hp⟩
    rw [List.map_nil, ite_self]
    exact h.empty hpos u
  unfold ttyDoRead
  by_cases hcurrent : isCurrentTty l.state t
  · rw [if_pos hcurrent]
    by_cases hcount : 0 < l.state.kbBuf.count
    · rw [keyboardRead_eq hcur hcount]
      exact ⟨_, _, rfl, h.doAct hpos hcurrent _ _, .inr ⟨hcurrent, rfl, rfl⟩⟩
    · rw [keyboardRead_empty hcount]
      exact ⟨_, [], rfl, hsame, .inl ⟨rfl, rfl⟩⟩
  · rw [if_neg hcurrent]
    exact ⟨_, [], rfl, hsame, .inl ⟨rfl, rfl⟩⟩

/-- What the console is passed for the keys that are pending. -/
def echoOf (pending : List (BitVec 32 × ConsoleId)) : List (ConsoleId × Byte) :=
  pending.flatMap fun p => (keyText p.1).map fun ch => (p.2, ch)

/-- What `tty_do_write` does: the key that is pending is printed. -/
theorem LoopInv.doWrite {l : Loop} {pending : List (BitVec 32 × ConsoleId)} (h : LoopInv l pending)
    {t : TtyId} (hpos : l.pos = .write t) :
    ∃ s, ttyDoWrite l.state t = some s ∧ LoopInv ⟨s, .read (t + 1)⟩ [] ∧
      s.typed = l.state.typed ∧ s.scanned = l.state.scanned ∧ s.altL = l.state.altL ∧
      s.curTtyIndex = l.state.curTtyIndex ∧
      s.passed = l.state.passed ++ echoOf pending := by
  have htty : l.pos.tty = t := by rw [hpos]; rfl
  have hring := h.rings t
  rw [htty, if_pos rfl] at hring
  match pending, h, hring with
  | [], h, hring =>
    have hempty : ∀ u, Ring.Holds TTY_IN_BYTES_NUM (l.state.ttyTable u).inbuf [] := by
      intro u
      have hu := h.rings u
      rwa [List.map_nil, ite_self] at hu
    refine ⟨l.state, ttyDoWrite_empty hring.count, ?_, rfl, rfl, rfl, rfl, (List.append_nil _).symm⟩
    refine ⟨h.current, h.mode, h.console, fun _ _ => rfl, Nat.zero_le 1, fun u => ?_, h.typed,
      fun p hp => nomatch hp⟩
    rw [List.map_nil, ite_self]
    exact hempty u
  | [(key, c)], h, hring =>
    obtain ⟨hcur, hc⟩ := h.here (key, c) List.mem_cons_self
    rw [htty] at hcur hc
    have hc' : c = t := hc
    obtain ⟨hkey, hrest⟩ := pop_holds hring
    have hcount : (l.state.ttyTable t).inbuf.count ≠ 0 := by
      rw [hring.count]
      exact Nat.one_ne_zero
    refine ⟨_, ttyDoWrite_eq hcur hcount, ?_, rfl, rfl, rfl, rfl, ?_⟩
    · refine ⟨⟨t, hcur⟩, h.mode, fun u => ?_, fun _ _ => rfl, Nat.zero_le 1, fun u => ?_, ?_,
        fun p hp => nomatch hp⟩
      · show ((l.state.setTty t _).ttyTable u).console = u
        rw [State.setTty_console]
        exact h.console u
      · rw [List.map_nil, ite_self]
        show Ring.Holds TTY_IN_BYTES_NUM ((l.state.setTty t _).ttyTable u).inbuf []
        by_cases hu : u = t
        · subst hu
          rw [State.setTty_self]
          exact hrest
        · rw [State.setTty_of_ne _ _ hu]
          have hother := h.rings u
          rwa [htty, if_neg hu] at hother
      · show l.state.typed = l.state.echoed ++ [(_, _)] ++ []
        rw [h.typed, hkey, h.console t, hc', List.append_nil]
    · show (printKey l.state.toScreen _ _).passed = _
      rw [printKey_eq, printStr_passed, hkey, h.console t, hc', echoOf, List.flatMap_singleton]
  | _ :: _ :: _, h, _ => exact absurd h.short (by simp)

theorem LoopInv.irq {l : Loop} {pending : List (BitVec 32 × ConsoleId)} (h : LoopInv l pending)
    (scanCode : Byte) : LoopInv { l with state := storeScanCode l.state scanCode } pending :=
  ⟨h.current, h.mode, h.console, h.read, h.short, h.rings, h.typed, h.here⟩

theorem LoopInv.skip {l : Loop} {pending : List (BitVec 32 × ConsoleId)} (h : LoopInv l pending)
    {t : TtyId} (hpos : l.pos = .read t) (u : TtyId) : LoopInv { l with pos := .read u } [] := by
  have hnone := h.read t hpos
  subst hnone
  refine ⟨h.current, h.mode, h.console, fun _ _ => rfl, h.short, fun v => ?_, h.typed,
    fun p hp => nomatch hp⟩
  rw [List.map_nil, ite_self]
  exact h.empty hpos v

theorem LoopStart.loopInv {l : Loop} (h : LoopStart l) : LoopInv l [] := by
  obtain ⟨hpos, s0, hcur, hmode, htyped, hechoed, hinit⟩ := h
  rw [taskTtyInit_eq hcur] at hinit
  have hstate := (Option.some.inj hinit).symm
  refine ⟨⟨0, by rw [hstate]⟩, fun _ => ?_, fun t => ?_, fun _ _ => rfl, Nat.zero_le 1, fun t => ?_,
    ?_, fun p hp => nomatch hp⟩
  · rw [hstate]
    exact hmode
  · rw [hstate]
    show ((initTtys s0).ttyTable t).console = t
    rw [initTtys_tty]
  · rw [List.map_nil, ite_self, hstate]
    show Ring.Holds TTY_IN_BYTES_NUM ((initTtys s0).ttyTable t).inbuf []
    rw [initTtys_tty]
    exact holds_empty _ (by decide)
  · rw [hstate]
    show s0.typed = s0.echoed ++ []
    rw [htyped, hechoed, List.append_nil]

theorem LoopInv.step {l l' : Loop} {pending : List (BitVec 32 × ConsoleId)} (h : LoopInv l pending)
    (hstep : LoopStep l l') : ∃ pending', LoopInv l' pending' := by
  cases hstep with
  | irq scanCode => exact ⟨pending, h.irq scanCode⟩
  | @skip t hpos hready => exact ⟨[], h.skip hpos (t + 1)⟩
  | @read t s hpos hready hread =>
    obtain rfl := h.read t hpos
    obtain ⟨s', pending', hread', hinv, _⟩ := h.doRead hpos
    rw [hread] at hread'
    obtain rfl := Option.some.inj hread'
    exact ⟨pending', hinv⟩
  | @write t s hpos hwrite =>
    obtain ⟨s', hwrite', hinv, _⟩ := h.doWrite hpos
    rw [hwrite] at hwrite'
    obtain rfl := Option.some.inj hwrite'
    exact ⟨[], hinv⟩

theorem loopRun_inv {l : Loop} (h : Reachable LoopStart LoopStep l) :
    ∃ pending, LoopInv l pending := by
  refine h.invariant (I := fun l => ∃ pending, LoopInv l pending)
    (fun l hl => ⟨[], LoopStart.loopInv hl⟩) fun l l' ⟨pending, hl⟩ hstep => hl.step hstep

/-! ## What the echo shows -/

/-- A byte that shows on a console, or moves its cursor. -/
def Displayable (ch : Byte) : Prop := Printable ch ∨ ch = CR ∨ ch = LF

instance decidableDisplayable (ch : Byte) : Decidable (Displayable ch) :=
  inferInstanceAs (Decidable (_ ∨ _))

/-- A key of the table that is a printable ASCII character. -/
def IsChar (key : BitVec 32) : Prop := 0x20 ≤ key ∧ key ≤ 0x7e

instance decidableIsChar (key : BitVec 32) : Decidable (IsChar key) :=
  inferInstanceAs (Decidable (_ ∧ _))

/-- What should show for a scan code. -/
def expected (scanCode : Byte) : List Byte :=
  let status := keyStatus scanCode
  if status.press = .release then []
  else if IsChar status.key then [status.key.setWidth 8]
  else if status.key = KEY_ENTER then [CR, LF]
  else []

/-- What does show: the header for a switch to the terminal that is current already, and
    for a key what is left of its code in a byte. -/
def shown (cur : TtyId) (altL scanCode : Byte) : List Byte :=
  match keyAction altL scanCode with
  | .switch _ => (header cur).filter fun ch => Displayable ch
  | .type key => (keyText key).filter fun ch => Displayable ch
  | .nothing => []

/-- The code shows something although its key is neither a character nor Enter. -/
def Spurious (altL scanCode : Byte) : Prop :=
  match keyAction altL scanCode with
  | .switch _ => True
  | .type key => ¬ IsChar key ∧ key ≠ KEY_ENTER ∧ Displayable (key.setWidth 8)
  | .nothing => False

instance decidableSpurious (altL scanCode : Byte) : Decidable (Spurious altL scanCode) := by
  unfold Spurious
  cases keyAction altL scanCode <;> infer_instance

/-- The make codes of Ctrl, both Shift keys, Caps Lock, F4, F5, F7 to F10, Num Lock, Scroll
    Lock, the keypad's minus, middle, plus and dot, F11 and F12. -/
example : (List.range 0x80).filter (fun n => Spurious 0 (BitVec.ofNat 8 n)) =
    [0x1d, 0x2a, 0x36, 0x3a, 0x3e, 0x3f, 0x41, 0x42, 0x43, 0x44, 0x45, 0x46, 0x4a, 0x4c, 0x4e,
      0x53, 0x57, 0x58] := by decide

/-- No scan code of the list is spurious. -/
def Clean : Byte → List Byte → Prop
  | _, [] => True
  | altL, code :: codes => ¬ Spurious altL code ∧ Clean (altAfter code) codes

/-- What shows for a list of scan codes. -/
def shownAll (cur : TtyId) : Byte → List Byte → List Byte
  | _, [] => []
  | altL, code :: codes => shown cur altL code ++ shownAll cur (altAfter code) codes

/-- `alt_l` behind a list of scan codes. -/
def altAfterAll (altL : Byte) (codes : List Byte) : Byte :=
  codes.foldl (fun _ code => altAfter code) altL

theorem shownAll_append (cur : TtyId) (altL : Byte) (codes : List Byte) (code : Byte) :
    shownAll cur altL (codes ++ [code]) =
      shownAll cur altL codes ++ shown cur (altAfterAll altL codes) code := by
  induction codes generalizing altL with
  | nil => exact List.append_nil _
  | cons c codes ih =>
    show shown cur altL c ++ shownAll cur (altAfter c) (codes ++ [code]) = _
    rw [ih, ← List.append_assoc]
    rfl

theorem altAfterAll_append (altL : Byte) (codes : List Byte) (code : Byte) :
    altAfterAll altL (codes ++ [code]) = altAfter code := List.foldl_concat ..

theorem IsChar.displayable {key : BitVec 32} (h : IsChar key) : Displayable (key.setWidth 8) := by
  obtain ⟨hlo, hhi⟩ := h
  refine .inl ⟨?_, ?_⟩
  · bv_omega
  · bv_omega

/-- The keys with a meaning of their own are no characters. -/
theorem not_char {key : BitVec 32}
    (h : (∃ t, functionTty key = some t) ∨ key = KEY_ALT_L) : ¬ IsChar key ∧ key ≠ KEY_ENTER := by
  rcases h with ⟨t, ht⟩ | halt
  · rcases functionTty_eq_some ht with ⟨hkey, _⟩ | ⟨hkey | hkey | hkey, _⟩
    · rw [hkey]
      decide
    · rw [hkey]
      decide
    · rw [hkey]
      decide
    · rw [hkey]
      decide
  · rw [halt]
    decide

/-- Either the key is typed, or it is released or has a meaning of its own. -/
theorem keyAction_cases (altL code : Byte) :
    ((keyStatus code).press ≠ .release ∧ keyAction altL code = .type (keyStatus code).key) ∨
    ((∀ key, keyAction altL code ≠ .type key) ∧
      ((keyStatus code).press = .release ∨ (∃ t, functionTty (keyStatus code).key = some t) ∨
        (keyStatus code).key = KEY_ALT_L)) := by
  unfold keyAction
  dsimp only
  by_cases hrel : (keyStatus code).press = .release
  · rw [if_pos hrel]
    exact .inr ⟨fun key => nofun, .inl hrel⟩
  rw [if_neg hrel]
  cases hfun : functionTty (keyStatus code).key with
  | some t =>
    refine .inr ⟨fun key => ?_, .inr (.inl ⟨t, rfl⟩)⟩
    dsimp only
    split_ifs
    · nofun
    · nofun
  | none =>
    dsimp only
    by_cases halt : (keyStatus code).key = KEY_ALT_L
    · rw [if_pos halt]
      exact .inr ⟨fun key => nofun, .inr (.inr halt)⟩
    · rw [if_neg halt]
      exact .inl ⟨hrel, rfl⟩

/-- A code whose key is not typed should show nothing. -/
theorem expected_of_not_type (altL : Byte) {code : Byte}
    (h : ∀ key, keyAction altL code ≠ .type key) :
    expected code = [] := by
  unfold expected
  dsimp only
  rcases keyAction_cases altL code with ⟨_, htype⟩ | ⟨_, hrel | hown⟩
  · exact absurd htype (h _)
  · rw [if_pos hrel]
  · obtain ⟨hchar, henter⟩ := not_char hown
    rw [if_neg hchar, if_neg henter, ite_self]

theorem expected_of_type {altL code : Byte} {key : BitVec 32}
    (h : keyAction altL code = .type key) :
    expected code = if IsChar key then [key.setWidth 8]
      else if key = KEY_ENTER then [CR, LF] else [] := by
  unfold expected
  dsimp only
  rcases keyAction_cases altL code with ⟨hpress, htype⟩ | ⟨hnot, _⟩
  · rw [htype] at h
    rw [if_neg hpress, KeyAction.type.inj h]
  · exact absurd h (hnot key)

/-- A code that is not spurious shows what it should. -/
theorem shown_of_not_spurious {cur : TtyId} {altL code : Byte} (h : ¬ Spurious altL code) :
    shown cur altL code = expected code := by
  unfold Spurious at h
  unfold shown
  cases haction : keyAction altL code with
  | switch t =>
    rw [haction] at h
    exact absurd trivial h
  | nothing => exact (expected_of_not_type altL (by rw [haction]; nofun)).symm
  | type key =>
    rw [haction] at h
    rw [expected_of_type haction]
    dsimp only at h ⊢
    unfold keyText
    by_cases henter : key = KEY_ENTER
    · rw [henter]
      decide
    · rw [if_neg henter, if_neg henter]
      by_cases hchar : IsChar key
      · rw [if_pos hchar, List.filter_cons_of_pos (by simpa using hchar.displayable)]
        rfl
      · have hnot : ¬ Displayable (key.setWidth 8) := fun hdisp => h ⟨hchar, henter, hdisp⟩
        rw [if_neg hchar, List.filter_cons_of_neg (by simpa using hnot)]
        rfl

/-- A spurious one should show nothing, and shows something. -/
theorem shown_of_spurious (cur : TtyId) {altL code : Byte} (h : Spurious altL code) :
    expected code = [] ∧ 0 < (shown cur altL code).length := by
  unfold Spurious at h
  unfold shown
  cases haction : keyAction altL code with
  | switch t =>
    refine ⟨expected_of_not_type altL (by rw [haction]; nofun), ?_⟩
    show 0 < ((header cur).filter fun ch => Displayable ch).length
    clear h haction
    revert cur
    decide
  | nothing =>
    rw [haction] at h
    exact absurd h not_false
  | type key =>
    rw [haction] at h
    obtain ⟨hchar, henter, hdisp⟩ := h
    refine ⟨by rw [expected_of_type haction, if_neg hchar, if_neg henter], ?_⟩
    dsimp only
    unfold keyText
    rw [if_neg henter, List.filter_cons_of_pos (by simpa using hdisp)]
    exact Nat.one_pos

theorem expected_length_le (cur : TtyId) (altL : Byte) (codes : List Byte) :
    (codes.flatMap expected).length ≤ (shownAll cur altL codes).length := by
  induction codes generalizing altL with
  | nil => exact Nat.le_refl _
  | cons code codes ih =>
    have hrest := ih (altAfter code)
    have hfirst : (expected code).length ≤ (shown cur altL code).length := by
      by_cases hspur : Spurious altL code
      · rw [(shown_of_spurious cur hspur).1]
        exact Nat.zero_le _
      · rw [shown_of_not_spurious hspur]
    rw [List.flatMap_cons, List.length_append]
    show _ ≤ (shown cur altL code ++ shownAll cur (altAfter code) codes).length
    rw [List.length_append]
    omega

/-- What shows is what should show if and only if no code is spurious: a spurious code
    makes it longer, and no code makes it shorter. -/
theorem shownAll_eq_iff (cur : TtyId) (altL : Byte) (codes : List Byte) :
    shownAll cur altL codes = codes.flatMap expected ↔ Clean altL codes := by
  induction codes generalizing altL with
  | nil => exact iff_of_true rfl trivial
  | cons code codes ih =>
    rw [List.flatMap_cons]
    show shown cur altL code ++ shownAll cur (altAfter code) codes = _ ↔
      ¬ Spurious altL code ∧ Clean (altAfter code) codes
    rw [← ih (altAfter code)]
    by_cases hspur : Spurious altL code
    · refine iff_of_false (fun heq => ?_) fun h => h.1 hspur
      obtain ⟨hnone, hsome⟩ := shown_of_spurious cur hspur
      have hlen := congrArg List.length heq
      have hrest := expected_length_le cur (altAfter code) codes
      rw [hnone, List.length_append, List.nil_append] at hlen
      omega
    · rw [shown_of_not_spurious hspur, List.append_cancel_left_eq]
      exact ⟨fun h => ⟨hspur, h⟩, fun h => h.2⟩

/-! ## A segment of a run -/

/-- The part of what is passed to the consoles that shows. -/
def display (out : List (ConsoleId × Byte)) : List (ConsoleId × Byte) :=
  out.filter fun p => Displayable p.2

theorem display_append (a b : List (ConsoleId × Byte)) :
    display (a ++ b) = display a ++ display b := List.filter_append ..

theorem display_map (c : ConsoleId) (text : List Byte) :
    display (text.map fun ch => (c, ch)) =
      (text.filter fun ch => Displayable ch).map fun ch => (c, ch) := List.filter_map ..

/-- The steps that leave the terminal `c` current. -/
def StepOn (c : TtyId) (l l' : Loop) : Prop := LoopStep l l' ∧ l'.state.curTtyIndex = c.val

/-- What has happened since `l0`: the scan codes `codes` have been read, and what they
    show has been passed to the console, up to the key that is pending. -/
structure SegmentInv (c : TtyId) (l0 l : Loop) (codes : List Byte)
    (pending : List (BitVec 32 × ConsoleId)) : Prop where
  inv : LoopInv l pending
  current : l.state.curTtyIndex = c.val
  scanned : l.state.scanned = l0.state.scanned ++ codes
  altL : l.state.altL = altAfterAll l0.state.altL codes
  passed : ∃ out, l.state.passed = l0.state.passed ++ out ∧
    display (out ++ echoOf pending) = (shownAll c l0.state.altL codes).map fun ch => (c, ch)

theorem header_passed (screen : Screen) (t : TtyId) (c : ConsoleId) :
    (showTty screen t c).passed = screen.passed ++ (header t).map fun ch => (c, ch) := by
  rw [showTty_eq]
  show (s32ConsolePrintStr (screen.setXy c 0 0) c (header t)).passed = _
  rw [printStr_passed]
  rfl

/-- One scan code of the terminal that stays current. -/
theorem act_passed {s : State} {c t : TtyId} (hmode : s.vgaMode = TEXT_MODE)
    (hconsole : (s.ttyTable c).console = c) (hc : c ≠ 3) (action : KeyAction)
    (hstay : (act s t action).curTtyIndex = c.val) :
    (act s t action).scanned = s.scanned ∧
      (act s t action).passed = s.passed ++ action.output c := by
  cases action with
  | switch u =>
    have hu : u = c := by
      obtain ⟨screen, vga, hswitch, _⟩ := switchTo_eq s u
      rw [act, hswitch] at hstay
      apply Fin.ext
      exact Int.ofNat.inj hstay
    subst hu
    have hswitch : act s t (.switch u) = s.select u := by
      rw [act, switchTo, if_neg hc, switchMode_of_text hmode]
    rw [hswitch]
    refine ⟨rfl, ?_⟩
    show (showTty s.toScreen u (s.ttyTable u).console).passed = _
    rw [hconsole, header_passed]
    rfl
  | type key => exact ⟨rfl, (List.append_nil _).symm⟩
  | nothing => exact ⟨rfl, (List.append_nil _).symm⟩

/-- What an action passes to the console, now or as the echo of its key, is what it shows. -/
theorem action_display (c : TtyId) (altL code : Byte) :
    display ((keyAction altL code).output c ++ echoOf ((keyAction altL code).pending c)) =
      (shown c altL code).map fun ch => (c, ch) := by
  unfold shown
  cases keyAction altL code with
  | switch u =>
    show display ((header c).map (fun ch => (c, ch)) ++ []) = _
    rw [List.append_nil, display_map]
  | type key =>
    show display ([] ++ ((keyText key).map (fun ch => (c, ch)) ++ [])) = _
    rw [List.nil_append, List.append_nil, display_map]
  | nothing => rfl

theorem SegmentInv.step {c : TtyId} {l0 l l' : Loop} {codes : List Byte}
    {pending : List (BitVec 32 × ConsoleId)} (h : SegmentInv c l0 l codes pending) (hc : c ≠ 3)
    (hstep : StepOn c l l') : ∃ codes' pending', SegmentInv c l0 l' codes' pending' := by
  obtain ⟨hinv, hcur, hscanned, halt, out, hpassed, hshown⟩ := h
  obtain ⟨hstep, hstay⟩ := hstep
  cases hstep with
  | irq scanCode =>
    exact ⟨codes, pending, hinv.irq scanCode, hcur, hscanned, halt, out, hpassed, hshown⟩
  | @skip t hpos hready =>
    obtain rfl := hinv.read t hpos
    exact ⟨codes, [], hinv.skip hpos _, hcur, hscanned, halt, out, hpassed, hshown⟩
  | @read t s hpos hready hread =>
    obtain rfl := hinv.read t hpos
    obtain ⟨s', pending', hread', hinv', hwhat⟩ := hinv.doRead hpos
    rw [hread] at hread'
    obtain rfl := Option.some.inj hread'
    rcases hwhat with ⟨rfl, rfl⟩ | ⟨ht, rfl, rfl⟩
    · exact ⟨codes, [], hinv', hstay, hscanned, halt, out, hpassed, hshown⟩
    · obtain rfl : t = c := by
        apply Fin.ext
        exact Int.ofNat.inj (ht.symm.trans hcur)
      have hmode : l.state.vgaMode = TEXT_MODE := by
        apply hinv.mode
        rw [hcur]
        intro h3
        exact hc (Fin.ext (Int.ofNat.inj h3))
      obtain ⟨hact, hactPassed⟩ := act_passed (s := l.state.scan) hmode (hinv.console t) hc
        (keyAction l.state.altL l.state.scanCode) hstay
      refine ⟨codes ++ [l.state.scanCode], _, hinv', hstay, ?_, ?_,
        out ++ (keyAction l.state.altL l.state.scanCode).output t, ?_, ?_⟩
      · show (act l.state.scan t _).scanned = _
        rw [hact, ← List.append_assoc, ← hscanned]
        rfl
      · show altAfter l.state.scanCode = _
        rw [altAfterAll_append]
      · show (act l.state.scan t _).passed = _
        rw [hactPassed, ← List.append_assoc, ← hpassed]
        rfl
      · rw [shownAll_append, List.map_append, ← halt, ← action_display, ← hshown,
          ← display_append, show echoOf [] = [] from rfl, List.append_nil, List.append_assoc]
  | @write t s hpos hwrite =>
    obtain ⟨s', hwrite', hinv', _, hscanned', halt', _, hpassed'⟩ := hinv.doWrite hpos
    rw [hwrite] at hwrite'
    obtain rfl := Option.some.inj hwrite'
    refine ⟨codes, [], hinv', hstay, ?_, ?_, out ++ echoOf pending, ?_, ?_⟩
    · show s.scanned = _
      rw [hscanned', hscanned]
    · show s.altL = _
      rw [halt', halt]
    · show s.passed = _
      rw [hpassed', hpassed, List.append_assoc]
    · show display (out ++ echoOf pending ++ []) = _
      rw [List.append_nil, hshown]

theorem segment_inv {l0 l : Loop} {c : TtyId} (h : ∃ pending, LoopInv l0 pending) (hc : c ≠ 3)
    (hcur : l0.state.curTtyIndex = c.val) {t : TtyId} (hpos : l0.pos = .read t)
    (hrun : Relation.ReflTransGen (StepOn c) l0 l) :
    ∃ codes pending, SegmentInv c l0 l codes pending := by
  induction hrun with
  | refl =>
    obtain ⟨pending, hinv⟩ := h
    obtain rfl := hinv.read t hpos
    exact ⟨[], [], hinv, hcur, (List.append_nil _).symm, rfl, [], (List.append_nil _).symm, rfl⟩
  | tail _ hstep ih =>
    obtain ⟨codes, pending, hseg⟩ := ih
    exact hseg.step hc hstep

/-- In every part of every run between two passes in which the text terminal `c` stays
    current: the bytes that show are those that should show for the scan codes read, in
    their order and on its console, if and only if no scan code is spurious. -/
theorem echoRun_shown {l0 l : Loop} {c t0 t : TtyId} (h : Reachable LoopStart LoopStep l0)
    (hc : c ≠ 3) (hcur : l0.state.curTtyIndex = c.val) (hpos0 : l0.pos = .read t0)
    (hrun : Relation.ReflTransGen (StepOn c) l0 l) (hpos : l.pos = .read t) :
    ∃ codes out, l.state.scanned = l0.state.scanned ++ codes ∧
      l.state.passed = l0.state.passed ++ out ∧
      (display out = (codes.flatMap expected).map (fun ch => (c, ch)) ↔
        Clean l0.state.altL codes) := by
  obtain ⟨codes, pending, hseg⟩ := segment_inv (loopRun_inv h) hc hcur hpos0 hrun
  obtain ⟨out, hpassed, hshown⟩ := hseg.passed
  obtain rfl := hseg.inv.read t hpos
  refine ⟨codes, out, hseg.scanned, hpassed, ?_⟩
  have hinj : Function.Injective fun ch : Byte => (c, ch) := fun a b hab => (Prod.mk.inj hab).2
  rw [show echoOf [] = [] from rfl, List.append_nil] at hshown
  rw [hshown, List.map_inj_right fun a b hab => hinj hab]
  exact shownAll_eq_iff c l0.state.altL codes

/-! ## A first pass -/

/-- Without Alt no code switches. -/
theorem keyAction_zero_ne_switch (code : Byte) (t : TtyId) : keyAction 0 code ≠ .switch t := by
  unfold keyAction
  dsimp only
  by_cases hrel : (keyStatus code).press = .release
  · rw [if_pos hrel]
    nofun
  · rw [if_neg hrel]
    cases functionTty (keyStatus code).key with
    | some u => nofun
    | none =>
      dsimp only
      split_ifs
      · nofun
      · nofun

theorem act_curTtyIndex {s : State} {action : KeyAction} (h : ∀ u, action ≠ .switch u) (t : TtyId) :
    (act s t action).curTtyIndex = s.curTtyIndex ∧ (act s t action).scanned = s.scanned := by
  cases action with
  | switch u => exact absurd rfl (h u)
  | type key => exact ⟨rfl, rfl⟩
  | nothing => exact ⟨rfl, rfl⟩

/-- A scan code arrives before the first pass over the first terminal, which reads it
    and echoes its key. -/
theorem first_pass (code : Byte) : ∃ l0 l : Loop, LoopStart l0 ∧ l0.pos = .read 0 ∧
    l0.state.curTtyIndex = (0 : TtyId).val ∧ l0.state.altL = 0 ∧
    Relation.ReflTransGen (StepOn 0) l0 l ∧ l.pos = .read 1 ∧
    l.state.scanned = l0.state.scanned ++ [code] := by
  obtain ⟨s, hinit⟩ : ∃ s, taskTtyInit bss = some s := ⟨_, taskTtyInit_eq rfl⟩
  have hstart : LoopStart ⟨s, .read 0⟩ := ⟨rfl, bss, rfl, rfl, rfl, rfl, hinit⟩
  have hcur : s.curTtyIndex = (0 : TtyId).val ∧ s.altL = 0 ∧ (s.ttyTable 0).ready = 1 ∧
      Ring.Holds KB_NUM s.kbBuf [] := by
    rw [taskTtyInit_eq rfl] at hinit
    obtain rfl := Option.some.inj hinit
    refine ⟨rfl, rfl, ?_, holds_empty _ (by decide)⟩
    show ((initTtys bss).ttyTable 0).ready = 1
    rw [initTtys_tty]
  obtain ⟨hcur, halt, hready, hkb⟩ := hcur
  have hpush := push_holds (x := code) hkb (by decide)
  have hcode : (storeScanCode s code).scanCode = code := (pop_holds hpush).1
  have hcount : 0 < (storeScanCode s code).kbBuf.count := by
    show 0 < (push KB_NUM s.kbBuf code).count
    rw [hpush.count]
    exact Nat.one_pos
  have hcur' : isCurrentTty (storeScanCode s code) 0 := hcur
  have hread := (if_pos hcur' : ttyDoRead (storeScanCode s code) 0 = _).trans
    (keyboardRead_eq (by exact hcur) hcount 0)
  obtain ⟨s1, pending, hread', hinv1, _⟩ := (hstart.loopInv.irq code).doRead rfl
  obtain rfl := Option.some.inj (hread.symm.trans hread')
  obtain ⟨s2, hwrite, _, _, hscanned, _, hcur2, _⟩ := hinv1.doWrite rfl
  have hact : ∀ u, keyAction (storeScanCode s code).altL (storeScanCode s code).scanCode ≠
      .switch u := by
    intro u
    rw [show (storeScanCode s code).altL = 0 from halt]
    exact keyAction_zero_ne_switch _ u
  obtain ⟨hstay, hscanned'⟩ := act_curTtyIndex (s := (storeScanCode s code).scan) hact 0
  have hirq : StepOn 0 ⟨s, .read 0⟩ ⟨storeScanCode s code, .read 0⟩ := ⟨.irq code, hcur⟩
  have hreadStep : StepOn 0 ⟨storeScanCode s code, .read 0⟩ ⟨_, .write 0⟩ :=
    ⟨.read rfl hready hread, hstay.trans hcur⟩
  have hwriteStep : StepOn 0 ⟨_, .write 0⟩ ⟨s2, .read 1⟩ :=
    ⟨.write rfl hwrite, hcur2.trans (hstay.trans hcur)⟩
  refine ⟨⟨s, .read 0⟩, ⟨s2, .read 1⟩, hstart, rfl, hcur, halt,
    ((Relation.ReflTransGen.single hirq).tail hreadStep).tail hwriteStep, rfl, ?_⟩
  show s2.scanned = s.scanned ++ [code]
  rw [hscanned]
  refine hscanned'.trans ?_
  show s.scanned ++ [(storeScanCode s code).scanCode] = _
  rw [hcode]

/-- The `a` key: pressing it shows an `a`. -/
theorem echoRun_shown_a : ∃ l0 l : Loop, ∃ codes out,
    l.state.scanned = l0.state.scanned ++ codes ∧ l.state.passed = l0.state.passed ++ out ∧
      (display out = (codes.flatMap expected).map (fun ch => ((0 : TtyId), ch)) ↔
        Clean l0.state.altL codes) := by
  obtain ⟨l0, l, hstart, hpos0, hcur, _, hrun, hpos, _⟩ := first_pass 0x1e
  exact ⟨l0, l, echoRun_shown (.init hstart) (by decide) hcur hpos0 hrun hpos⟩

/-- The left Shift key: pressing it, alone, shows a blank. -/
theorem shift_shows_a_blank : ∃ l0 l : Loop, ∃ out,
    LoopStart l0 ∧ Relation.ReflTransGen (StepOn 0) l0 l ∧ l.pos = .read 1 ∧
      l.state.scanned = l0.state.scanned ++ [0x2a] ∧ l.state.passed = l0.state.passed ++ out ∧
      display out = [(0, 0x20)] ∧ expected 0x2a = [] := by
  obtain ⟨l0, l, hstart, hpos0, hcur, halt, hrun, hpos, hscanned⟩ := first_pass 0x2a
  obtain ⟨codes, pending, hseg⟩ := segment_inv ⟨[], hstart.loopInv⟩ (by decide) hcur hpos0 hrun
  obtain ⟨out, hpassed, hshown⟩ := hseg.passed
  obtain rfl := hseg.inv.read 1 hpos
  have hcodes : codes = [0x2a] := by
    have heq := hseg.scanned.symm.trans hscanned
    exact List.append_cancel_left heq
  refine ⟨l0, l, out, hstart, hrun, hpos, hscanned, hpassed, ?_, by decide⟩
  rw [hcodes, halt, show echoOf [] = [] from rfl, List.append_nil] at hshown
  rw [hshown]
  decide

end Terminal

end SimpleOs
