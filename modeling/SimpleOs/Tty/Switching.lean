import SimpleOs.Lib.Latch
import SimpleOs.Tty.Echo

/-!
# Switching the terminal

`keyboard_read` (tty/keyboard.c:387-464) with the calls of `select_tty` it makes.

`alt_l` is set by the make code and by the break code of the left Alt key, and cleared by
every other code: it says that the code before was one of that key, not that the key is
held.

* `keyRun_switches_iff`: the runs in which the terminal is switched at the function keys
  that are pressed while Alt is held.
-/

namespace SimpleOs

open ByteMem Ring Transition Latch

namespace Terminal

/-! ## The calls -/

/-- `keyboard_read` (tty/keyboard.c:387-464): the numbers it passes to `select_tty`, and the
    state. -/
def keyboardReadCalls (s : State) (t : TtyId) : Option (List ℤ × State) :=
  if 0 < s.kbBuf.count then
    let (scanCode, s) := getByteFromKbBuf s
    let status := keyStatus scanCode
    if status.key = KEY_F1 ∨ status.key = KEY_F2 ∨ status.key = KEY_F3 then
      let r :=
        if s.altL = 1 ∧ status.press = .press then
          let index := (status.key - KEY_F1).toInt
          (selectTty (switchMode s TEXT_MODE) index).map fun r => ([index], r.2)
        else some ([], s)
      r.map fun r => (r.1, { r.2 with altL := 0 })
    else if status.key = KEY_F6 then
      let r :=
        if s.altL = 1 ∧ status.press = .press then
          (selectTty s 3).map fun r => ([3], switchMode r.2 VGA_320X200X256)
        else some ([], s)
      r.map fun r => (r.1, { r.2 with altL := 0 })
    else if status.key = KEY_ALT_L then some ([], { s with altL := 1 })
    else
      let s := if status.press = .press then typeKey s t status.key else s
      some ([], { s with altL := 0 })
  else some ([], s)

/-- The calls leave the state that `keyboardRead` leaves. -/
theorem keyboardReadCalls_state (s : State) (t : TtyId) :
    (keyboardReadCalls s t).map Prod.snd = keyboardRead s t := by
  unfold keyboardReadCalls keyboardRead
  dsimp only
  split_ifs
  · simp [Option.map_map, Function.comp_def]
  · rfl
  · simp [Option.map_map, Function.comp_def]
  · rfl
  · rfl
  · rfl
  · rfl
  · rfl

/-- The number of the terminal of a make code of F1, F2, F3 or F6. -/
def functionNumber (scanCode : Byte) : Option ℤ :=
  if scanCode = 0x3b then some 0
  else if scanCode = 0x3c then some 1
  else if scanCode = 0x3d then some 2
  else if scanCode = 0x40 then some 3
  else none

/-- The make and the break code of the left Alt key. -/
abbrev ALT_MAKE : Byte := 0x38
abbrev ALT_BREAK : Byte := 0xb8

/-- The call for a scan code, behind an Alt code or not. -/
def selectArgs (altL scanCode : Byte) : List ℤ :=
  if altL = 1 then (functionNumber scanCode).toList else []

theorem functionNumber_eq (scanCode : Byte) :
    functionNumber scanCode =
      if (keyStatus scanCode).press = .press then
        (functionTty (keyStatus scanCode).key).map fun t => (t.val : ℤ)
      else none := by
  revert scanCode
  decide

theorem altAfter_eq (scanCode : Byte) :
    altAfter scanCode = if scanCode = ALT_MAKE ∨ scanCode = ALT_BREAK then 1 else 0 := by
  revert scanCode
  decide

/-- A call under a guard, as the branches of the function keys make it. -/
theorem guarded_args {α : Type} {c : Prop} [Decidable c] {x : Option α} {i : ℤ} {f : α → State}
    {s : State} {g : List ℤ × State → State} {r : List ℤ × State}
    (h : (if c then x.map fun a => ([i], f a) else some ([], s)).map (fun r => (r.1, g r)) =
      some r) : r.1 = if c then [i] else [] := by
  obtain ⟨r', hr', rfl⟩ := Option.map_eq_some_iff.mp h
  split_ifs at hr' ⊢ with hc
  · obtain ⟨a, _, rfl⟩ := Option.map_eq_some_iff.mp hr'
    rfl
  · rw [← Option.some.inj hr']

/-- The calls of one `keyboard_read` with a scan code in the buffer. -/
theorem keyboardReadCalls_args {s : State} {t : TtyId} {r : List ℤ × State}
    (hcount : 0 < s.kbBuf.count) (h : keyboardReadCalls s t = some r) :
    r.1 = selectArgs s.altL s.scanCode := by
  unfold keyboardReadCalls at h
  rw [if_pos hcount] at h
  change (let status := keyStatus s.scanCode
    if status.key = KEY_F1 ∨ status.key = KEY_F2 ∨ status.key = KEY_F3 then
      (if s.altL = 1 ∧ status.press = .press then
        (selectTty (switchMode s.scan TEXT_MODE) (status.key - KEY_F1).toInt).map
          fun r => ([(status.key - KEY_F1).toInt], r.2)
      else some ([], s.scan)).map fun r => (r.1, { r.2 with altL := 0 })
    else if status.key = KEY_F6 then
      (if s.altL = 1 ∧ status.press = .press then
        (selectTty s.scan 3).map fun r => ([3], switchMode r.2 VGA_320X200X256)
      else some ([], s.scan)).map fun r => (r.1, { r.2 with altL := 0 })
    else if status.key = KEY_ALT_L then some ([], { s.scan with altL := 1 })
    else some ([], { (if status.press = .press then typeKey s.scan t status.key else s.scan) with
      altL := 0 })) = some r at h
  dsimp only at h
  unfold selectArgs
  rw [functionNumber_eq]
  cases hkey : functionTty (keyStatus s.scanCode).key with
  | some u =>
    rcases functionTty_eq_some hkey with ⟨h6, rfl⟩ | ⟨h123, _, hindex⟩
    · have hnot123 : ¬ ((keyStatus s.scanCode).key = KEY_F1 ∨ (keyStatus s.scanCode).key = KEY_F2 ∨
          (keyStatus s.scanCode).key = KEY_F3) := by
        rw [h6]
        decide
      rw [if_neg hnot123, if_pos h6] at h
      rw [guarded_args h, ite_and]
      split_ifs <;> rfl
    · rw [if_pos h123, hindex] at h
      rw [guarded_args h, ite_and]
      split_ifs <;> rfl
  | none =>
    obtain ⟨hnot123, hnot6⟩ := functionTty_eq_none hkey
    rw [if_neg hnot123, if_neg hnot6] at h
    split_ifs at h
    · rw [← Option.some.inj h]
      simp
    · rw [← Option.some.inj h]
      simp
    · rw [← Option.some.inj h]
      simp

theorem keyboardReadCalls_eq {s : State} {cur : TtyId} (hcur : s.curTtyIndex = cur.val)
    (hcount : 0 < s.kbBuf.count) (t : TtyId) :
    keyboardReadCalls s t = some (selectArgs s.altL s.scanCode,
      { act s.scan t (keyAction s.altL s.scanCode) with altL := altAfter s.scanCode }) := by
  have hstate := keyboardReadCalls_state s t
  rw [keyboardRead_eq hcur hcount] at hstate
  obtain ⟨r, hr, hsnd⟩ := Option.map_eq_some_iff.mp hstate
  rw [hr, ← keyboardReadCalls_args hcount hr, ← hsnd]

/-! ## Runs -/

/-- The state, and the calls of `select_tty` that each scan code read so far has led to. -/
structure KeyRun where
  state : State
  calls : List (List ℤ)

/-- `task_tty` has set up the terminals. -/
def KeyStart (r : KeyRun) : Prop :=
  r.calls = [] ∧ ∃ s0 : State, s0.curTtyIndex = 0 ∧ s0.altL = 0 ∧ s0.scanned = [] ∧
    taskTtyInit s0 = some r.state

/-- A `keyboard_read` that finds no scan code does nothing. -/
inductive KeyStep (r : KeyRun) : KeyRun → Prop
  | irq (scanCode : Byte) : KeyStep r { r with state := storeScanCode r.state scanCode }
  | read {t : TtyId} {calls : List ℤ} {s : State} (hcount : 0 < r.state.kbBuf.count)
      (hread : keyboardReadCalls r.state t = some (calls, s)) :
      KeyStep r ⟨s, r.calls ++ [calls]⟩

/-- Every scan code has led to the calls that depend on the code before it. -/
structure KeyInv (r : KeyRun) : Prop where
  current : ∃ cur : TtyId, r.state.curTtyIndex = cur.val
  altL : r.state.altL = altAfterAll 0 r.state.scanned
  length : r.calls.length = r.state.scanned.length
  calls : ∀ pre code, pre ++ [code] <+: r.state.scanned →
    r.calls[pre.length]? = some (selectArgs (altAfterAll 0 pre) code)

theorem KeyStart.keyInv {r : KeyRun} (h : KeyStart r) : KeyInv r := by
  obtain ⟨hcalls, s0, hcur, halt, hscanned, hinit⟩ := h
  rw [taskTtyInit_eq hcur] at hinit
  have hstate := (Option.some.inj hinit).symm
  have hscanned' : r.state.scanned = [] := by
    rw [hstate]
    exact hscanned
  refine ⟨⟨0, by rw [hstate]⟩, ?_, by simp [hcalls, hscanned'], fun pre code hpre => ?_⟩
  · rw [hscanned', hstate]
    exact halt
  · rw [hscanned', List.prefix_nil] at hpre
    simp at hpre

/-- What an action does to the variables of `keyboard_read`. -/
theorem act_frame {s : State} {cur : TtyId} (hcur : s.curTtyIndex = cur.val) (t : TtyId)
    (action : KeyAction) :
    (∃ cur' : TtyId, (act s t action).curTtyIndex = cur'.val) ∧
      (act s t action).scanned = s.scanned ∧ (act s t action).kbBuf = s.kbBuf := by
  cases action with
  | switch u =>
    obtain ⟨screen, vga, hswitch, _⟩ := switchTo_eq s u
    rw [act, hswitch]
    exact ⟨⟨u, rfl⟩, rfl, rfl⟩
  | type key => exact ⟨⟨cur, hcur⟩, rfl, rfl⟩
  | nothing => exact ⟨⟨cur, hcur⟩, rfl, rfl⟩

theorem KeyInv.step {r r' : KeyRun} (h : KeyInv r) (hstep : KeyStep r r') : KeyInv r' := by
  obtain ⟨⟨cur, hcur⟩, halt, hlength, hcalls⟩ := h
  cases hstep with
  | irq scanCode => exact ⟨⟨cur, hcur⟩, halt, hlength, hcalls⟩
  | @read t calls s hcount hread =>
    rw [keyboardReadCalls_eq hcur hcount] at hread
    obtain ⟨rfl, rfl⟩ := Prod.mk.inj (Option.some.inj hread)
    obtain ⟨hcurrent, hscanned, _⟩ := act_frame (s := r.state.scan) hcur t
      (keyAction r.state.altL r.state.scanCode)
    have hscanned' : (act r.state.scan t (keyAction r.state.altL r.state.scanCode)).scanned =
        r.state.scanned ++ [r.state.scanCode] := hscanned
    refine ⟨hcurrent, ?_, ?_, fun pre code hpre => ?_⟩
    · show altAfter r.state.scanCode = altAfterAll 0 _
      rw [hscanned', altAfterAll_append]
    · show (r.calls ++ [_]).length = List.length _
      rw [hscanned', List.length_append, List.length_append, hlength]
      rfl
    · rw [hscanned', List.prefix_concat_iff] at hpre
      rcases hpre with hlast | hpre
      · obtain ⟨rfl, hcode⟩ := List.append_inj' hlast rfl
        rw [← hlength, List.getElem?_concat_length, halt, List.singleton_inj.mp hcode]
      · have hold := hcalls pre code hpre
        rw [List.getElem?_append_left, hold]
        exact (List.getElem?_eq_some_iff.mp hold).1

theorem keyRun_inv {r : KeyRun} (h : Reachable KeyStart KeyStep r) : KeyInv r :=
  h.invariant (fun _ => KeyStart.keyInv) fun _ _ hr hstep => hr.step hstep

/-- `alt_l` behind a list of scan codes: it is set if the last is one of the Alt key. -/
theorem altAfterAll_eq_one (codes : List Byte) :
    altAfterAll 0 codes = 1 ↔
      codes.getLast? = some ALT_MAKE ∨ codes.getLast? = some ALT_BREAK := by
  cases codes using List.reverseRecOn with
  | nil => simp [altAfterAll]
  | append_singleton codes code =>
    rw [altAfterAll_append, altAfter_eq, List.getLast?_concat, Option.some.injEq, Option.some.injEq]
    split_ifs with hcode
    · exact iff_of_true rfl hcode
    · exact iff_of_false (by decide) hcode

/-- The make codes of the function keys that come while Alt is held switch, and no other
    code does. -/
def expectedCalls (pre : List Byte) (code : Byte) : List ℤ :=
  if Latched ALT_MAKE ALT_BREAK pre then (functionNumber code).toList else []

/-- The code comes directly behind the make code of Alt; or it does not come directly behind
    its break code, and Alt is not held. -/
def SeesAlt (pre : List Byte) : Prop :=
  pre.getLast? = some ALT_MAKE ∨
    (pre.getLast? ≠ some ALT_BREAK ∧ ¬ Latched ALT_MAKE ALT_BREAK pre)

theorem latched_of_getLast? {pre : List Byte} (h : pre.getLast? = some ALT_MAKE) :
    Latched ALT_MAKE ALT_BREAK pre := by
  obtain ⟨xs, rfl⟩ := List.getLast?_eq_some_iff.mp h
  exact latched_concat_set

theorem not_latched_of_getLast? {pre : List Byte} (h : pre.getLast? = some ALT_BREAK) :
    ¬ Latched ALT_MAKE ALT_BREAK pre := by
  obtain ⟨xs, rfl⟩ := List.getLast?_eq_some_iff.mp h
  exact latched_concat_clear (by decide)

/-- One code. -/
theorem selectArgs_eq_iff (pre : List Byte) (code : Byte) :
    selectArgs (altAfterAll 0 pre) code = expectedCalls pre code ↔
      (functionNumber code ≠ none → SeesAlt pre) := by
  cases hcode : functionNumber code with
  | none => simp [selectArgs, expectedCalls, hcode]
  | some n =>
    have hgoal : (functionNumber code ≠ none → SeesAlt pre) ↔ SeesAlt pre :=
      forall_prop_of_true (by simp [hcode])
    rw [← hcode, hgoal]
    unfold selectArgs expectedCalls
    rw [hcode]
    by_cases hmake : pre.getLast? = some ALT_MAKE
    · rw [if_pos ((altAfterAll_eq_one pre).mpr (.inl hmake)), if_pos (latched_of_getLast? hmake)]
      exact iff_of_true rfl (.inl hmake)
    by_cases hbreak : pre.getLast? = some ALT_BREAK
    · rw [if_pos ((altAfterAll_eq_one pre).mpr (.inr hbreak)),
        if_neg (not_latched_of_getLast? hbreak)]
      exact iff_of_false (by simp) fun h => h.elim hmake fun h => h.1 hbreak
    · have hclear : ¬ altAfterAll 0 pre = 1 := fun h =>
        ((altAfterAll_eq_one pre).mp h).elim hmake hbreak
      rw [if_neg hclear]
      by_cases hheld : Latched ALT_MAKE ALT_BREAK pre
      · rw [if_pos hheld]
        exact iff_of_false (by simp) fun h => h.elim hmake fun h => h.2 hheld
      · rw [if_neg hheld]
        exact iff_of_true rfl (.inr ⟨hbreak, hheld⟩)

/-- In every run, `select_tty` is called with the number of the terminal at each make code
    of F1, F2, F3 and F6 that comes while the left Alt key is held, and not otherwise, if
    and only if each of these make codes meets `SeesAlt`. -/
theorem keyRun_switches_iff {r : KeyRun} (h : Reachable KeyStart KeyStep r) :
    r.calls.length = r.state.scanned.length ∧
      ((∀ pre code, pre ++ [code] <+: r.state.scanned →
          r.calls[pre.length]? = some (expectedCalls pre code)) ↔
        ∀ pre code, pre ++ [code] <+: r.state.scanned → functionNumber code ≠ none →
          SeesAlt pre) := by
  have hinv := keyRun_inv h
  refine ⟨hinv.length, forall_congr' fun pre => forall_congr' fun code =>
    forall_congr' fun hpre => ?_⟩
  rw [hinv.calls pre code hpre, Option.some.injEq]
  exact selectArgs_eq_iff pre code

/-! ## Every sequence of scan codes has its run -/

theorem keyRun_start : ∃ r, KeyStart r ∧ r.state.scanned = [] ∧
    Ring.Holds KB_NUM r.state.kbBuf [] := by
  obtain ⟨s, hinit⟩ : ∃ s, taskTtyInit bss = some s := ⟨_, taskTtyInit_eq rfl⟩
  refine ⟨⟨s, []⟩, ⟨rfl, bss, rfl, rfl, rfl, hinit⟩, ?_, ?_⟩
  · rw [taskTtyInit_eq rfl] at hinit
    rw [← Option.some.inj hinit]
    rfl
  · rw [taskTtyInit_eq rfl] at hinit
    rw [← Option.some.inj hinit]
    exact holds_empty _ (by decide)

/-- A scan code arrives, and is read. -/
theorem keyRun_code {r : KeyRun} (h : Reachable KeyStart KeyStep r)
    (hkb : Ring.Holds KB_NUM r.state.kbBuf []) (code : Byte) :
    ∃ r', Reachable KeyStart KeyStep r' ∧ r'.state.scanned = r.state.scanned ++ [code] ∧
      Ring.Holds KB_NUM r'.state.kbBuf [] := by
  obtain ⟨cur, hcur⟩ := (keyRun_inv h).current
  obtain ⟨hcount, hcode, hrest, hscanned⟩ := getByteFromKbBuf_holds
    (s := storeScanCode r.state code) (push_holds (x := code) hkb (by decide))
  have hread := keyboardReadCalls_eq (s := storeScanCode r.state code) hcur hcount 0
  obtain ⟨_, hframe, hkb'⟩ := act_frame (s := (storeScanCode r.state code).scan) hcur 0
    (keyAction (storeScanCode r.state code).altL (storeScanCode r.state code).scanCode)
  refine ⟨_, .step (.step h (.irq code)) (.read hcount hread), hframe.trans hscanned, ?_⟩
  show Ring.Holds KB_NUM (State.kbBuf _) []
  rw [hkb']
  exact hrest

theorem keyRun_codes (codes : List Byte) :
    ∃ r, Reachable KeyStart KeyStep r ∧ r.state.scanned = codes := by
  suffices h : ∃ r, Reachable KeyStart KeyStep r ∧ r.state.scanned = codes ∧
      Ring.Holds KB_NUM r.state.kbBuf [] by
    obtain ⟨r, hr, hscanned, _⟩ := h
    exact ⟨r, hr, hscanned⟩
  induction codes using List.reverseRecOn with
  | nil =>
    obtain ⟨r, hstart, hscanned, hkb⟩ := keyRun_start
    exact ⟨r, .init hstart, hscanned, hkb⟩
  | append_singleton codes code ih =>
    obtain ⟨r, hr, hscanned, hkb⟩ := ih
    obtain ⟨r', hr', hscanned', hkb'⟩ := keyRun_code hr hkb code
    exact ⟨r', hr', by rw [hscanned', hscanned], hkb'⟩

/-- Alt and F1. -/
theorem keyRun_switches_iff_alt : ∃ r : KeyRun, r.state.scanned = [ALT_MAKE, 0x3b] ∧
    r.calls.length = r.state.scanned.length ∧
      ((∀ pre code, pre ++ [code] <+: r.state.scanned →
          r.calls[pre.length]? = some (expectedCalls pre code)) ↔
        ∀ pre code, pre ++ [code] <+: r.state.scanned → functionNumber code ≠ none →
          SeesAlt pre) := by
  obtain ⟨r, hr, hscanned⟩ := keyRun_codes [ALT_MAKE, 0x3b]
  exact ⟨r, hscanned, keyRun_switches_iff hr⟩

/-- Alt is pressed and released, and F1 still switches; Alt is pressed and held, and after F1
    F2 does not switch. -/
theorem released_alt_switches :
    (∃ r, Reachable KeyStart KeyStep r ∧ r.state.scanned = [ALT_MAKE, ALT_BREAK, 0x3b] ∧
      r.calls[2]? = some [0] ∧ expectedCalls [ALT_MAKE, ALT_BREAK] 0x3b = []) ∧
    ∃ r, Reachable KeyStart KeyStep r ∧ r.state.scanned = [ALT_MAKE, 0x3b, 0x3c] ∧
      r.calls[2]? = some [] ∧ expectedCalls [ALT_MAKE, 0x3b] 0x3c = [1] := by
  constructor
  · obtain ⟨r, hr, hscanned⟩ := keyRun_codes [ALT_MAKE, ALT_BREAK, 0x3b]
    have hcalls := (keyRun_inv hr).calls [ALT_MAKE, ALT_BREAK] 0x3b (by simp [hscanned])
    exact ⟨r, hr, hscanned, hcalls.trans (by decide), by decide⟩
  · obtain ⟨r, hr, hscanned⟩ := keyRun_codes [ALT_MAKE, 0x3b, 0x3c]
    have hcalls := (keyRun_inv hr).calls [ALT_MAKE, 0x3b] 0x3c (by simp [hscanned])
    exact ⟨r, hr, hscanned, hcalls.trans (by decide), by decide⟩

end Terminal

end SimpleOs
