import Mathlib.Data.List.Induction
import SimpleOs.Io.Screen
import SimpleOs.Kernel.Process
import SimpleOs.Tty.Keyboard

/-!
# What the keyboard interrupt shows

`keyboard_handler` (tty/keyboard.c:35-54) with the scan code that it shows in line 22. Its
place, `cur_pos`, is moved on by three characters at each interrupt and never taken back.
The video memory comes first, then nothing that can be written, and at `0x100000` the
kernel.

* `interrupts_inText_iff`: everything is shown inside the video memory if and only if there
  have been at most 4875 interrupts.
* `keyboardHandler_ok_iff`: the digits of interrupt number 48566 reach the kernel's text.
-/

namespace SimpleOs

open ByteMem

namespace Terminal

/-- The state, `cur_pos` of `keyboard_handler`, and what it has written to the screen. -/
structure Handler where
  state : State
  curPos : BitVec 32
  written : Output

/-- `(u8*)(0xb8000+160*22 + cur_pos*2)`. -/
def Handler.place (h : Handler) : Addr := 0xb8000 + 160 * 22 + h.curPos * 2

/-- What `keyboard_handler` (tty/keyboard.c:35-54) does while its code is whole. -/
def Handler.interrupt (h : Handler) (scanCode : Byte) : Handler where
  state := storeScanCode h.state scanCode
  written := h.written ++ s32PrintInt (scanCode.setWidth 32) h.place 16
  curPos := h.curPos + 3

/-- The output lands below the kernel's text. -/
def BelowKernel (out : Output) : Prop := ∀ w ∈ out, w.1.toNat < kernelText

instance decidableBelowKernel (out : Output) : Decidable (BelowKernel out) :=
  List.decidableBAll _ out

/-- `keyboard_handler` (tty/keyboard.c:35-54), which writes where `cur_pos` takes it. -/
def keyboardHandler (h : Handler) (scanCode : Byte) : Except Fault Handler :=
  if BelowKernel (s32PrintInt (scanCode.setWidth 32) h.place 16) then
    .ok (h.interrupt scanCode)
  else .error .overrun

/-- The position behind one more interrupt. -/
theorem Handler.interrupt_curPos {h : Handler} {n : ℕ} (hpos : h.curPos = BitVec.ofNat 32 (3 * n))
    (scanCode : Byte) : (h.interrupt scanCode).curPos = BitVec.ofNat 32 (3 * (n + 1)) := by
  rw [Handler.interrupt, hpos, Nat.mul_add, BitVec.ofNat_add]
  rfl

/-- The interrupts since boot. -/
def interrupts (s0 : State) (scanCodes : List Byte) : Handler :=
  scanCodes.foldl Handler.interrupt ⟨s0, 0, []⟩

theorem interrupts_concat (s0 : State) (scanCodes : List Byte) (scanCode : Byte) :
    interrupts s0 (scanCodes ++ [scanCode]) = (interrupts s0 scanCodes).interrupt scanCode := by
  simp [interrupts]

theorem interrupts_curPos (s0 : State) (scanCodes : List Byte) :
    (interrupts s0 scanCodes).curPos = BitVec.ofNat 32 (3 * scanCodes.length) := by
  induction scanCodes using List.reverseRecOn with
  | nil => rfl
  | append_singleton scanCodes scanCode ih =>
    rw [interrupts_concat, Handler.interrupt_curPos ih, List.length_append, List.length_singleton]

/-- The place behind `n` interrupts. -/
theorem Handler.place_eq {h : Handler} {n : ℕ} (hpos : h.curPos = BitVec.ofNat 32 (3 * n)) :
    h.place = videoAddr (160 * 22 + 6 * n) := by
  unfold Handler.place videoAddr
  rw [hpos]
  apply BitVec.eq_of_toNat_eq
  simp
  omega

theorem interrupts_place (s0 : State) (scanCodes : List Byte) :
    (interrupts s0 scanCodes).place = videoAddr (160 * 22 + 6 * scanCodes.length) :=
  Handler.place_eq (interrupts_curPos s0 scanCodes)

/-! ## One scan code -/

/-- A scan code has one or two digits. -/
theorem scanCode_digits (scanCode : Byte) :
    (s32Itoa (scanCode.setWidth 32) 16).length = if scanCode < 0x10 then 1 else 2 := by
  have hbyte := scanCode.isLt
  have hnat : (scanCode.setWidth 32).toNat = scanCode.toNat := by
    rw [BitVec.toNat_setWidth]
    omega
  have hshort : scanCode < 0x10 ↔ scanCode.toNat < 16 := BitVec.lt_def
  unfold s32Itoa
  by_cases hzero : scanCode.setWidth 32 = 0
  · have hsmall : scanCode < 0x10 := by
      rw [hshort, ← hnat, hzero]
      decide
    rw [if_pos hzero, if_pos hsmall]
    rfl
  · have hne : scanCode.toNat ≠ 0 := fun h => hzero (BitVec.eq_of_toNat_eq (hnat.trans h))
    rw [if_neg hzero, List.length_reverse, hnat, itoaLoop, if_pos hne, List.length_cons, itoaLoop]
    by_cases hsmall : scanCode.toNat < 16
    · rw [if_neg (by omega), if_pos (hshort.mpr hsmall)]
      rfl
    · rw [if_pos (by omega), if_neg (mt hshort.mp hsmall), List.length_cons, itoaLoop,
        if_neg (by omega)]
      rfl

theorem interrupt_inText {h : Handler} {n : ℕ} (hplace : h.place = videoAddr n)
    (hn : n + 4 ≤ 0x8001) (scanCode : Byte) :
    ∀ w ∈ s32PrintInt (scanCode.setWidth 32) h.place 16, InTextMemory w.1 := by
  have hdigits := scanCode_digits scanCode
  rw [hplace]
  apply s32PrintStr_inText
  rw [List.length_map, hdigits]
  split_ifs
  · omega
  · omega

/-- The first digit is always written. -/
theorem interrupt_writes (h : Handler) (scanCode : Byte) :
    ∃ w ∈ (h.interrupt scanCode).written, w.1 = h.place := by
  have hdigits : 0 < (s32Itoa (scanCode.setWidth 32) 16).length := by
    rw [scanCode_digits]
    split_ifs
    · exact Nat.one_pos
    · exact Nat.two_pos
  cases hstr : (s32Itoa (scanCode.setWidth 32) 16).map charByte with
  | nil =>
    rw [List.map_eq_nil_iff] at hstr
    simp [hstr] at hdigits
  | cons c str =>
    refine ⟨(h.place, c), List.mem_append_right _ ?_, rfl⟩
    rw [s32PrintInt, hstr, s32PrintStr]
    exact List.mem_append_left _ (List.mem_singleton_self _)

/-- Where the digits of the interrupt behind `n` others go: 48565 of three characters each
    are the room below the kernel, but for one character. -/
def RoomAt (n : ℕ) (scanCode : Byte) : Prop := n < 48565 ∨ n = 48565 ∧ scanCode < 0x10

instance decidableRoomAt (n : ℕ) (scanCode : Byte) : Decidable (RoomAt n scanCode) :=
  inferInstanceAs (Decidable (_ ∨ _))

theorem digits_below_iff {h : Handler} {n : ℕ} (hpos : h.curPos = BitVec.ofNat 32 (3 * n))
    (hn : n < 2 ^ 20) (scanCode : Byte) :
    BelowKernel (s32PrintInt (scanCode.setWidth 32) h.place 16) ↔ RoomAt n scanCode := by
  have hlen : ((s32Itoa (scanCode.setWidth 32) 16).map charByte).length =
      if scanCode < 0x10 then 1 else 2 := by
    rw [List.length_map, scanCode_digits]
  have hshort : (if scanCode < 0x10 then 1 else 2) ≤ 2 := by split_ifs <;> decide
  rw [BelowKernel, Handler.place_eq hpos, s32PrintInt, s32PrintStr_below_iff (by omega), hlen]
  unfold RoomAt kernelText
  split_ifs with hsmall
  · refine ⟨fun hall => ?_, fun hroom i hi => by omega⟩
    have hfirst := hall 0 (by omega)
    rcases Nat.lt_or_ge n 48565 with hbefore | hlast
    · exact .inl hbefore
    · exact .inr ⟨by omega, hsmall⟩
  · refine ⟨fun hall => ?_, fun hroom i hi => ?_⟩
    · have hsecond := hall 1 (by omega)
      exact .inl (by omega)
    · have hbefore : n < 48565 := hroom.resolve_right fun h => hsmall h.2
      omega

theorem keyboardHandler_overrun {h : Handler} {n : ℕ} (hpos : h.curPos = BitVec.ofNat 32 (3 * n))
    (hn : n < 2 ^ 20) {scanCode : Byte} (hroom : ¬ RoomAt n scanCode) :
    keyboardHandler h scanCode = .error .overrun :=
  if_neg (mt (digits_below_iff hpos hn scanCode).mp hroom)

/-- The interrupt is handled. -/
theorem keyboardHandler_ok_iff {h h' : Handler} {n : ℕ}
    (hpos : h.curPos = BitVec.ofNat 32 (3 * n)) (hn : n < 2 ^ 20) {scanCode : Byte} :
    keyboardHandler h scanCode = .ok h' ↔ RoomAt n scanCode ∧ h' = h.interrupt scanCode := by
  by_cases hroom : RoomAt n scanCode
  · rw [keyboardHandler, if_pos ((digits_below_iff hpos hn scanCode).mpr hroom), Except.ok.injEq]
    exact ⟨fun heq => ⟨hroom, heq.symm⟩, fun h => h.2.symm⟩
  · rw [keyboardHandler_overrun hpos hn hroom]
    exact ⟨nofun, fun h => absurd h.1 hroom⟩

/-! ## All interrupts -/

theorem interrupts_inText {s0 : State} {scanCodes : List Byte} (h : scanCodes.length ≤ 4875) :
    ∀ w ∈ (interrupts s0 scanCodes).written, InTextMemory w.1 := by
  induction scanCodes using List.reverseRecOn with
  | nil => simp [interrupts]
  | append_singleton scanCodes scanCode ih =>
    rw [List.length_append, List.length_singleton] at h
    intro w hw
    rw [interrupts_concat] at hw
    rcases List.mem_append.mp hw with hold | hnew
    · exact ih (by omega) w hold
    · exact interrupt_inText (interrupts_place s0 scanCodes) (by omega) scanCode w hnew

/-- What has been written stays in the log. -/
theorem interrupts_written_append (s0 : State) (scanCodes more : List Byte) :
    (interrupts s0 scanCodes).written ⊆ (interrupts s0 (scanCodes ++ more)).written := by
  induction more using List.reverseRecOn with
  | nil => simp
  | append_singleton more scanCode ih =>
    rw [← List.append_assoc, interrupts_concat]
    exact fun w hw => List.mem_append_left _ (ih hw)

/-- For every number of interrupts since boot and all scan codes: each byte that
    `keyboard_handler` writes to the screen lies in the text video memory if and only if
    there have been at most 4875 interrupts. -/
theorem interrupts_inText_iff (s0 : State) (scanCodes : List Byte) :
    (∀ w ∈ (interrupts s0 scanCodes).written, InTextMemory w.1) ↔ scanCodes.length ≤ 4875 := by
  refine ⟨fun hall => ?_, fun h => interrupts_inText h⟩
  by_contra hmore
  -- the code of interrupt number 4876 is written two bytes behind the video memory
  obtain ⟨scanCode, hsplit⟩ : ∃ scanCode, scanCodes =
      scanCodes.take 4875 ++ [scanCode] ++ scanCodes.drop 4876 :=
    ⟨scanCodes[4875], by simp⟩
  have hlen : (scanCodes.take 4875).length = 4875 := by
    rw [List.length_take]
    omega
  obtain ⟨w, hw, haddr⟩ := interrupt_writes (interrupts s0 (scanCodes.take 4875)) scanCode
  rw [interrupts_place, hlen] at haddr
  rw [← interrupts_concat] at hw
  have hin : w ∈ (interrupts s0 scanCodes).written := by
    rw [hsplit]
    exact interrupts_written_append s0 _ _ hw
  have htext := hall w hin
  rw [haddr] at htext
  exact absurd htext (by decide)

/-- The key `a`, 4876 times: the last time it is shown at `0xc0002`. -/
theorem shown_behind_the_screen :
    ∃ w ∈ (interrupts bss (List.replicate 4876 0x1e)).written, w.1 = 0xc0002 ∧
      ¬ InTextMemory w.1 := by
  obtain ⟨w, hw, haddr⟩ := interrupt_writes (interrupts bss (List.replicate 4875 0x1e)) 0x1e
  have hplace : w.1 = 0xc0002 := by
    rw [haddr, interrupts_place, List.length_replicate]
    decide
  rw [← interrupts_concat, ← List.replicate_succ'] at hw
  refine ⟨w, hw, hplace, ?_⟩
  rw [hplace]
  decide

end Terminal

end SimpleOs
