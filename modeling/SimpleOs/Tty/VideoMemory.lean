import SimpleOs.Lib.Transition
import SimpleOs.Tty.Terminal

/-!
# Video memory

Every text console has a third of the text video memory, of which it can use
8000 bytes, and stays there.

* `InVideo`: the cursors are on their pages, and what has been written lies in
  the memory of the console it was written for. Every function keeps it.
* `screenRun_in_video`: so it holds in every state of every run.
-/

namespace SimpleOs

open ByteMem Ring Transition

/-- `a` is one of the bytes of the text console `c`. -/
def InConsole (c : ConsoleId) (a : Addr) : Prop :=
  0xb8000 + c.val * VIDEO_RAM_SIZE.toNat ≤ a.toNat ∧
    a.toNat < 0xb8000 + c.val * VIDEO_RAM_SIZE.toNat + 8000

instance (c : ConsoleId) (a : Addr) : Decidable (InConsole c a) :=
  inferInstanceAs (Decidable (_ ∧ _))

/-- The consoles are where `init_console` puts them, and have stayed there. -/
structure InVideo (s : Screen) : Prop where
  text : ∀ c : ConsoleId, c.val < 3 → (s.consoleTable c).type = .text
  graphic : (s.consoleTable 3).type = .graphic
  vmStart : ∀ c : ConsoleId, c.val < 3 →
    (s.consoleTable c).vmStart = 0xb8000 + BitVec.ofNat 32 c.val * VIDEO_RAM_SIZE
  onPage : ∀ c : ConsoleId, c.val < 3 → (s.consoleTable c).place.OnPage
  written : ∀ w ∈ s.written, w.1.val < 3 ∧ InConsole w.1 w.2.1

/-! ## The memory of a console -/

theorem videoRamSize_toNat : VIDEO_RAM_SIZE.toNat = 10922 := rfl

/-- The first byte of a text console. -/
theorem vmStart_toNat {c : ConsoleId} (hc : c.val < 3) :
    (0xb8000 + BitVec.ofNat 32 c.val * VIDEO_RAM_SIZE : Addr).toNat =
      0xb8000 + c.val * VIDEO_RAM_SIZE.toNat := by
  rw [BitVec.toNat_add, BitVec.toNat_mul, BitVec.toNat_ofNat, videoRamSize_toNat]
  have hbase : (0xb8000 : Addr).toNat = 0xb8000 := rfl
  omega

/-- The memories of two text consoles are apart. -/
theorem inConsole_disjoint {c d : ConsoleId} {a : Addr} (hcd : c ≠ d) (h : InConsole c a) :
    ¬ InConsole d a := by
  have hne : c.val ≠ d.val := fun hval => hcd (Fin.ext hval)
  unfold InConsole at h ⊢
  rw [videoRamSize_toNat] at h ⊢
  omega

theorem inConsole_video {c : ConsoleId} {a : Addr} (hc : c.val < 3) (h : InConsole c a) :
    0xb8000 ≤ a.toNat ∧ a.toNat ≤ 0xbffff := by
  unfold InConsole at h
  rw [videoRamSize_toNat] at h
  omega

/-- The cell of a place on the page. -/
theorem cell_inConsole {con : Console} {c : ConsoleId} (hc : c.val < 3)
    (hvm : con.vmStart = 0xb8000 + BitVec.ofNat 32 c.val * VIDEO_RAM_SIZE)
    (hpage : con.place.OnPage) (hroom : ¬ 50 ≤ con.curY) :
    InConsole c con.cell ∧ InConsole c (con.cell + 1) := by
  have hx : con.curX.toNat < 80 := hpage.1
  have hy : con.curY.toNat < 50 := by
    simp only [BitVec.le_def, not_le] at hroom
    exact hroom
  have hstart : con.vmStart.toNat = 0xb8000 + c.val * 10922 := by
    rw [hvm]
    exact vmStart_toNat hc
  have hcell : con.cell.toNat =
      0xb8000 + c.val * 10922 + (con.curX.toNat + con.curY.toNat * 80) * 2 := by
    unfold Console.cell
    bv_omega
  have hnext : (con.cell + 1).toNat = con.cell.toNat + 1 := by bv_omega
  unfold InConsole
  rw [videoRamSize_toNat]
  omega

/-! ## Every function keeps it -/

theorem InVideo.accepts {s : Screen} {c : ConsoleId} (h : InVideo s) (hacc : s.Accepts c) :
    c.val < 3 := by
  by_contra hc
  have hc3 : c = 3 := by
    apply Fin.ext
    show c.val = 3
    omega
  have htext := hacc.1
  rw [hc3, h.graphic] at htext
  nomatch htext

theorem InVideo.printChar {s : Screen} (h : InVideo s) (c : ConsoleId) (ch : Byte) :
    InVideo (s32ConsolePrintChar s c ch) := by
  refine ⟨fun d hd => ?_, ?_, fun d hd => ?_, fun d hd => ?_, fun w hw => ?_⟩
  · rw [(printChar_fixed s c ch d).2, h.text d hd]
  · rw [(printChar_fixed s c ch 3).2, h.graphic]
  · rw [(printChar_fixed s c ch d).1, h.vmStart d hd]
  · by_cases hdc : d = c
    · subst hdc
      rw [printChar_place s d ch (h.text d hd) (h.onPage d hd)]
      exact (h.onPage d hd).type ch
    · rw [printChar_of_ne s c ch hdc]
      exact h.onPage d hd
  · rw [printChar_written, List.mem_append] at hw
    rcases hw with hold | hnew
    · exact h.written w hold
    · split_ifs at hnew with hacc
      · have hc := h.accepts hacc
        obtain ⟨v, hv, rfl⟩ := List.mem_map.mp hnew
        have hcell := cell_inConsole hc (h.vmStart c hc) (h.onPage c hc) hacc.2
        refine ⟨hc, ?_⟩
        unfold Console.writes at hv
        split_ifs at hv with hprint
        · rcases List.mem_pair.mp hv with rfl | rfl
          · exact hcell.1
          · exact hcell.2
        · nomatch hv
      · nomatch hnew

theorem InVideo.printStr {s : Screen} (h : InVideo s) (c : ConsoleId) (str : List Byte) :
    InVideo (s32ConsolePrintStr s c str) := by
  induction str generalizing s with
  | nil => exact h
  | cons ch str ih => exact ih (h.printChar c ch)

theorem InVideo.setXy {s : Screen} (h : InVideo s) {c : ConsoleId} {x y : BitVec 32}
    (hpage : c.val < 3 → x.toNat < 80 ∧ y.toNat ≤ 50) : InVideo (s.setXy c x y) := by
  have hself : (s.setXy c x y).consoleTable c = { s.consoleTable c with curX := x, curY := y } :=
    Screen.setConsole_self ..
  have hother : ∀ d, d ≠ c → (s.setXy c x y).consoleTable d = s.consoleTable d :=
    fun d hd => Screen.setConsole_of_ne _ _ hd
  refine ⟨fun d hd => ?_, ?_, fun d hd => ?_, fun d hd => ?_, h.written⟩
  · by_cases hdc : d = c
    · subst hdc
      rw [hself]
      exact h.text d hd
    · rw [hother d hdc]
      exact h.text d hd
  · by_cases hdc : 3 = c
    · subst hdc
      rw [hself]
      exact h.graphic
    · rw [hother 3 hdc]
      exact h.graphic
  · by_cases hdc : d = c
    · subst hdc
      rw [hself]
      exact h.vmStart d hd
    · rw [hother d hdc]
      exact h.vmStart d hd
  · by_cases hdc : d = c
    · subst hdc
      rw [hself]
      exact hpage hd
    · rw [hother d hdc]
      exact h.onPage d hd

/-- The registers do not matter. -/
theorem InVideo.setRegisters {s : Screen} (h : InVideo s) (start pos : BitVec 16) :
    InVideo ((s.setVideoStartAddr start).setCursor pos) :=
  ⟨h.text, h.graphic, h.vmStart, h.onPage, h.written⟩

theorem InVideo.clearConsole {s : Screen} (h : InVideo s) (c : ConsoleId) :
    InVideo (clearConsole s c) := by
  have hline : ∀ s y, InVideo s → y ∈ List.range 50 →
      InVideo ((List.range 80).foldl (fun s x =>
        s32ConsolePrintCharXy s c 0x20 (BitVec.ofNat 32 x) (BitVec.ofNat 32 y)) s) := by
    intro s y hs hy
    refine List.foldlRecOn _ _ hs fun s' hs' x hx => ?_
    rw [List.mem_range] at hx hy
    refine (hs'.setXy fun _ => ?_).printChar c 0x20
    rw [BitVec.toNat_ofNat, BitVec.toNat_ofNat]
    omega
  have hpage := List.foldlRecOn (motive := InVideo) (List.range 50) _ h
    fun s' hs' y hy => hline s' y hs' hy
  exact hpage.setXy fun _ => ⟨show 0 < 80 by omega, show 2 ≤ 50 by omega⟩

theorem InVideo.showTty {s : Screen} (h : InVideo s) (t : TtyId) (c : ConsoleId) :
    InVideo (Terminal.showTty s t c) := by
  refine InVideo.setRegisters (InVideo.setXy ?_ fun hc => ?_) _ _
  · have hfirst : InVideo (s.setXy c 0 0) :=
      h.setXy fun _ => ⟨show 0 < 80 by omega, show 0 ≤ 50 by omega⟩
    exact (((hfirst.printStr c _).printStr c _).printStr c _).printStr c _
  · exact h.onPage c hc

theorem InVideo.printKey {s : Screen} (h : InVideo s) (c : ConsoleId) (key : BitVec 32) :
    InVideo (Terminal.printKey s c key) := by
  unfold Terminal.printKey
  split_ifs
  · exact (h.printChar c CR).printChar c LF
  · exact h.printChar c _

namespace Terminal

/-! ## Runs -/

/-- What `task_tty` and the processes do to the terminals: a switch to a text
    terminal, a key that arrives, its echo, a `tty_write`. -/
inductive TtyOp where
  | select (i : Fin 3)
  | key (t : TtyId) (ch : BitVec 32)
  | echo (t : TtyId)
  | write (t : TtyId) (buf : List Byte)

def TtyOp.perform (s : State) : TtyOp → Option State
  | .select i => (selectTty s i.val).map Prod.snd
  | .key t ch => some (putKey s t ch)
  | .echo t => ttyDoWrite s t
  | .write t buf => some (ttyWrite s t buf)

/-- These, and the functions of tty/console.c called directly. -/
inductive ConsoleOp where
  | tty (op : TtyOp)
  | printChar (c : ConsoleId) (ch : Byte)
  | printStr (c : ConsoleId) (str : List Byte)
  | clear (c : ConsoleId)

def ConsoleOp.perform (s : State) : ConsoleOp → Option State
  | .tty op => op.perform s
  | .printChar c ch => some (s.withScreen (s32ConsolePrintChar s.toScreen c ch))
  | .printStr c str => some (s.withScreen (s32ConsolePrintStr s.toScreen c str))
  | .clear c => some (s.withScreen (clearConsole s.toScreen c))

/-- `init_console` has been called, and nothing has been printed yet; the first
    terminal is the current one. The rings may hold anything. -/
structure ConsolesReady (s : State) : Prop where
  screen : ∃ before, s.toScreen = initConsole before
  written : s.written = []
  current : s.curTtyIndex = 0

theorem initConsole_inVideo {s : Screen} (hwritten : s.written = []) :
    InVideo (initConsole s) := by
  have hcon : ∀ c : ConsoleId, c.val < 3 → (initConsole s).consoleTable c =
      { s.consoleTable c with
        curVm := 0xb8000 + BitVec.ofNat 32 c.val * VIDEO_RAM_SIZE
        vmStart := 0xb8000 + BitVec.ofNat 32 c.val * VIDEO_RAM_SIZE
        curX := 0
        curY := 2
        type := .text } := fun c hc => if_pos hc
  refine ⟨fun c hc => ?_, rfl, fun c hc => ?_, fun c hc => ?_, fun w hw => ?_⟩
  · rw [hcon c hc]
  · rw [hcon c hc]
  · rw [hcon c hc]
    exact ⟨show 0 < 80 by omega, show 2 ≤ 50 by omega⟩
  · have hnone : w ∈ s.written := hw
    rw [hwritten] at hnone
    nomatch hnone

/-- What holds between two calls. -/
structure ConsolesInv (s : State) : Prop where
  video : InVideo s.toScreen
  current : ∃ i : Fin 3, s.curTtyIndex = i.val

theorem ConsolesInv.tty {s s' : State} {op : TtyOp} (h : ConsolesInv s)
    (hop : op.perform s = some s') : ConsolesInv s' := by
  obtain ⟨hvideo, i, hi⟩ := h
  have hold : s.curTtyIndex = (⟨i.val, by omega⟩ : TtyId).val := hi
  cases op with
  | select j =>
    have hsel := selectTty_eq (t := ⟨j.val, by omega⟩) hold
    rw [TtyOp.perform, hsel] at hop
    obtain rfl := Option.some.inj hop
    exact ⟨hvideo.showTty _ _, j, rfl⟩
  | key t ch =>
    obtain rfl := Option.some.inj hop
    exact ⟨hvideo, i, hi⟩
  | echo t =>
    rw [TtyOp.perform] at hop
    by_cases hcount : (s.ttyTable t).inbuf.count = 0
    · rw [ttyDoWrite_empty hcount] at hop
      obtain rfl := Option.some.inj hop
      exact ⟨hvideo, i, hi⟩
    · rw [ttyDoWrite_eq hold hcount] at hop
      obtain rfl := Option.some.inj hop
      exact ⟨hvideo.printKey _ _, i, hi⟩
  | write t buf =>
    obtain rfl := Option.some.inj hop
    by_cases hready : (s.ttyTable t).ready = 1
    · rw [ttyWrite_eq hready]
      exact ⟨hvideo.printStr _ _, i, hi⟩
    · rw [ttyWrite_not_ready hready]
      exact ⟨hvideo, i, hi⟩

theorem ConsolesInv.console {s s' : State} {op : ConsoleOp} (h : ConsolesInv s)
    (hop : op.perform s = some s') : ConsolesInv s' := by
  cases op with
  | tty op => exact h.tty hop
  | printChar c ch =>
    obtain rfl := Option.some.inj hop
    exact ⟨h.video.printChar c ch, h.current⟩
  | printStr c str =>
    obtain rfl := Option.some.inj hop
    exact ⟨h.video.printStr c str, h.current⟩
  | clear c =>
    obtain rfl := Option.some.inj hop
    exact ⟨h.video.clearConsole c, h.current⟩

/-- In every state of every run every text console has its cursor on its page, and
    every byte written for it is one of its 8000 bytes, which lie in the video
    memory and are not bytes of another console. -/
theorem screenRun_in_video {s : State}
    (h : Reachable ConsolesReady (fun s s' => ∃ op, ConsoleOp.perform s op = some s') s) :
    (∀ c : ConsoleId, c.val < 3 →
      (s.consoleTable c).curX.toNat < 80 ∧ (s.consoleTable c).curY.toNat ≤ 50) ∧
    ∀ c a b, (c, a, b) ∈ s.written → c.val < 3 ∧ InConsole c a ∧
      (0xb8000 ≤ a.toNat ∧ a.toNat ≤ 0xbffff) ∧ ∀ d : ConsoleId, d ≠ c → ¬ InConsole d a := by
  have hinv : ConsolesInv s := by
    refine h.invariant (I := ConsolesInv) (fun s h0 => ?_) fun s s' hs ⟨op, hop⟩ => hs.console hop
    obtain ⟨before, hscreen⟩ := h0.screen
    have hwritten : before.written = [] := by
      have hw := h0.written
      rw [hscreen] at hw
      exact hw
    refine ⟨?_, 0, h0.current⟩
    rw [hscreen]
    exact initConsole_inVideo hwritten
  refine ⟨hinv.video.onPage, fun c a b hw => ?_⟩
  obtain ⟨hc, hin⟩ := hinv.video.written (c, a, b) hw
  exact ⟨hc, hin, inConsole_video hc hin, fun d hd => inConsole_disjoint hd.symm hin⟩

/-- A run: something is printed on the third console. -/
theorem screenRun_in_video_run :
    ∃ s : State, ConsoleOp.perform
        { toScreen := initConsole ⟨fun _ => ⟨0, 0, 0, 0, .text⟩, 0, 0, [], []⟩
          ttyTable := fun t => ⟨⟨fun _ => 0, 0, 0, 0⟩, 1, t⟩
          curTtyIndex := 0
          kbBuf := ⟨fun _ => 0, 0, 0, 0⟩
          altL := 0
          vgaMode := 1
          scanned := []
          typed := []
          echoed := [] }
        (.printStr 2 [0x41, LF]) = some s ∧
      (∀ c : ConsoleId, c.val < 3 →
        (s.consoleTable c).curX.toNat < 80 ∧ (s.consoleTable c).curY.toNat ≤ 50) ∧
      ∀ c a b, (c, a, b) ∈ s.written → c.val < 3 ∧ InConsole c a ∧
        (0xb8000 ≤ a.toNat ∧ a.toNat ≤ 0xbffff) ∧ ∀ d : ConsoleId, d ≠ c → ¬ InConsole d a :=
  ⟨_, rfl, screenRun_in_video
    (.step (.init ⟨⟨_, rfl⟩, rfl, rfl⟩) ⟨.printStr 2 [0x41, LF], rfl⟩)⟩

end Terminal

end SimpleOs
