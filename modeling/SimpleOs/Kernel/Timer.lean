import SimpleOs.Kernel.Schedule
import SimpleOs.Lib.Scan

/-!
# The timer and its delays

`init_timer` and `milli_delay` (start.c:440-486) over the ticks that `clock_handler` counts
(clock.c:15-36).

* `initTimer_divisor`: the cast to `u8` stands before the shift, so the high byte of the divisor
  is zero. The timer gets 155 instead of 11931.
* `delays_iff`: a delay ends at the right tick if and only if it is short enough for its ticks
  times 1000 to fit into 32 bits.
-/

namespace SimpleOs

open ByteMem Scan

/-! ## The code -/

/-- start.c:30-34. -/
abbrev TIMER_MODE : BitVec 16 := 0x43
abbrev RATE_GENERATOR : Byte := 0x34
abbrev TIMER0 : BitVec 16 := 0x40
abbrev TIMER_FREQ : ℕ := 1193182
abbrev HZ : ℕ := 100

/-- The arguments of the calls of `io_out8` in `init_timer` (start.c:480-486). -/
def initTimer (timerFreq hz : ℕ) : List (BitVec 16 × Byte) :=
  let u8 : Byte := BitVec.ofNat 8 (timerFreq / hz)
  [(TIMER_MODE, RATE_GENERATOR), (TIMER0, u8), (TIMER0, (u8.setWidth 32 >>> 8).setWidth 8)]

/-- The rounds of `milli_delay` (start.c:441-464), one for each tick, where `get_ticks` returns
    `getTicks d` after `d` ticks; the result is the tick at which it returns. What it shows in
    line 20 is left out. -/
def milliDelay (getTicks : ℕ → BitVec 32) (milliSec : BitVec 32) (fuel : ℕ) : Option ℕ :=
  let t := getTicks 0
  poll (fun d =>
    let t2 := getTicks d
    milliSec ≤ (t2 - t) * 1000 / BitVec.ofNat 32 HZ) fuel 0

/-! ## The divisor -/

/-- Counter 0 of the 8254: the divisor comes in two bytes, the low one first. -/
structure Counter where
  low : Option Byte
  divisor : BitVec 16

/-- A byte for one of its ports. -/
def Counter.out (c : Counter) (w : BitVec 16 × Byte) : Counter :=
  if w.1 = TIMER_MODE then { c with low := none }
  else if w.1 = TIMER0 then
    match c.low with
    | none => { c with low := some w.2 }
    | some low => ⟨none, w.2 ++ low⟩
  else c

/-- The counter behind `init_timer`. -/
def Counter.init (c : Counter) (timerFreq hz : ℕ) : Counter :=
  (initTimer timerFreq hz).foldl Counter.out c

theorem initTimer_divisor (c : Counter) (timerFreq hz : ℕ) :
    (c.init timerFreq hz).divisor.toNat = timerFreq / hz % 256 := by
  have hshift : (BitVec.setWidth 32 (BitVec.ofNat 8 (timerFreq / hz)) >>> 8).setWidth 8 =
      (0 : Byte) := by
    apply BitVec.eq_of_toNat_eq
    rw [BitVec.toNat_setWidth, BitVec.toNat_ushiftRight, BitVec.toNat_setWidth,
      BitVec.toNat_ofNat, Nat.shiftRight_eq_div_pow]
    show timerFreq / hz % 256 % 4294967296 / 256 % 256 = 0
    omega
  show ((BitVec.setWidth 32 (BitVec.ofNat 8 (timerFreq / hz)) >>> 8).setWidth 8 ++
    BitVec.ofNat 8 (timerFreq / hz)).toNat = _
  rw [hshift, BitVec.toNat_append]
  simp

/-- It is right only if it fits into a byte. -/
theorem initTimer_divisor_iff (c : Counter) (timerFreq hz : ℕ) :
    (c.init timerFreq hz).divisor.toNat = timerFreq / hz ↔ timerFreq / hz < 256 := by
  rw [initTimer_divisor]
  generalize timerFreq / hz = n
  omega

/-! ## The delay -/

/-- The machine at each tick. Between two ticks anything may change but `ticks`. -/
structure ClockRuns (k : ℕ → Machine) : Prop where
  tick : ∀ d, ∃ m, clockHandler (k d) = .ok m ∧ (k (d + 1)).ticks = m.ticks

theorem clockHandler_ticks {k m : Machine} (h : clockHandler k = .ok m) :
    m.ticks = k.ticks + 1 := by
  unfold clockHandler at h
  dsimp only at h
  split_ifs at h with hk
  · obtain rfl := Except.ok.inj h
    rfl
  · unfold schedule at h
    cases hloop : scheduleLoop k.procTable 35 k.readyProcess with
    | error e =>
      rw [hloop] at h
      nomatch h
    | ok r =>
      rw [hloop] at h
      obtain rfl := Except.ok.inj h
      rfl

theorem ClockRuns.ticks {k : ℕ → Machine} (h : ClockRuns k) (d : ℕ) :
    (k d).ticks = (k 0).ticks + BitVec.ofNat 32 d := by
  induction d with
  | zero => simp
  | succ d ih =>
    obtain ⟨m, hm, hnext⟩ := h.tick d
    rw [hnext, clockHandler_ticks hm, ih, BitVec.ofNat_add, BitVec.add_assoc]
    rfl

/-- The difference of the two ticks is the number of ticks between them, also where the
    counter has wrapped. -/
theorem elapsed_toNat (t : BitVec 32) (d : ℕ) : (t + BitVec.ofNat 32 d - t).toNat = d % 2 ^ 32 := by
  rw [BitVec.add_comm, BitVec.add_sub_cancel, BitVec.toNat_ofNat]

/-- `milli_delay` returns at the first tick of which the code thinks that it is late enough. -/
theorem ClockRuns.milliDelay_iff {k : ℕ → Machine} (h : ClockRuns k) (milliSec : BitVec 32)
    (d : ℕ) :
    (∃ fuel, milliDelay (fun d => (k d).ticks) milliSec fuel = some d) ↔
      (∀ e < d, ¬ milliSec.toNat ≤ e % 2 ^ 32 * 1000 % 2 ^ 32 / 100) ∧
        milliSec.toNat ≤ d % 2 ^ 32 * 1000 % 2 ^ 32 / 100 := by
  have hdone : ∀ e, milliSec ≤ ((k e).ticks - (k 0).ticks) * 1000 / BitVec.ofNat 32 HZ ↔
      milliSec.toNat ≤ e % 2 ^ 32 * 1000 % 2 ^ 32 / 100 := by
    intro e
    rw [BitVec.le_def, BitVec.toNat_udiv, BitVec.toNat_mul, h.ticks e, elapsed_toNat]
    rfl
  unfold milliDelay
  rw [poll_iff]
  simp only [hdone, Nat.zero_le, true_and, true_imp_iff]

/-- The delay ends at the first tick at which enough time has elapsed. -/
def OnTime (getTicks : ℕ → BitVec 32) (milliSec : BitVec 32) : Prop :=
  ∃ d, IsLeast {d : ℕ | milliSec.toNat ≤ d * 1000 / HZ} d ∧
    ∃ fuel, milliDelay getTicks milliSec fuel = some d

/-- The product in the code is too small from 4294968 ticks on. -/
theorem ClockRuns.onTime_iff {k : ℕ → Machine} (h : ClockRuns k) {milliSec : BitVec 32}
    (hint : 0 ≤ milliSec.toInt) :
    OnTime (fun d => (k d).ticks) milliSec ↔ milliSec.toNat ≤ 42949670 := by
  have hlt : milliSec.toNat < 2 ^ 31 := by
    rw [BitVec.toInt_eq_toNat_cond] at hint
    split_ifs at hint <;> omega
  constructor
  · rintro ⟨d, ⟨hd, hleast⟩, hret⟩
    have hdone := ((h.milliDelay_iff milliSec d).mp hret).2
    have hfirst : d ≤ (milliSec.toNat + 9) / 10 := by
      apply hleast
      show milliSec.toNat ≤ (milliSec.toNat + 9) / 10 * 1000 / 100
      omega
    have henough : milliSec.toNat ≤ d * 1000 / 100 := hd
    omega
  · intro hshort
    refine ⟨(milliSec.toNat + 9) / 10, ⟨?_, fun d hd => ?_⟩, (h.milliDelay_iff milliSec _).mpr
      ⟨fun e he => ?_, ?_⟩⟩
    · show milliSec.toNat ≤ (milliSec.toNat + 9) / 10 * 1000 / 100
      omega
    · have henough : milliSec.toNat ≤ d * 1000 / 100 := hd
      omega
    · omega
    · omega

/-- A delay of more than 42949672 milliseconds never ends. -/
theorem ClockRuns.milliDelay_never {k : ℕ → Machine} (h : ClockRuns k) {milliSec : BitVec 32}
    (hlong : 42949672 < milliSec.toNat) (fuel : ℕ) :
    milliDelay (fun d => (k d).ticks) milliSec fuel = none := by
  cases hret : milliDelay (fun d => (k d).ticks) milliSec fuel with
  | none => rfl
  | some d =>
    have hdone := ((h.milliDelay_iff milliSec d).mp ⟨fuel, hret⟩).2
    omega

/-- For every delay that is not negative and every value of the tick counter: the timer does
    not have its divisor, whatever the delay; and counted in its ticks, the delay ends when it
    should if and only if it is at most 42949670 milliseconds. -/
theorem delays_iff {k : ℕ → Machine} (h : ClockRuns k) {milliSec : BitVec 32}
    (hint : 0 ≤ milliSec.toInt) (c : Counter) :
    ¬ ((c.init TIMER_FREQ HZ).divisor.toNat = TIMER_FREQ / HZ ∧
        OnTime (fun d => (k d).ticks) milliSec) ∧
      (OnTime (fun d => (k d).ticks) milliSec ↔ milliSec.toNat ≤ 42949670) := by
  refine ⟨fun hboth => ?_, h.onTime_iff hint⟩
  have hbyte := (initTimer_divisor_iff c TIMER_FREQ HZ).mp hboth.1
  exact absurd hbyte (by decide)

/-- The machine `n` ticks before its counter wraps, and behind; the ticks interrupt the
    kernel. -/
def ticking (n d : ℕ) : Machine :=
  { bootMachine sampleImage with
    kReenter := 1
    ticks := BitVec.ofNat 32 d - BitVec.ofNat 32 n }

theorem ticking_runs (n : ℕ) : ClockRuns (ticking n) := by
  refine ⟨fun d => ⟨_, rfl, ?_⟩⟩
  show BitVec.ofNat 32 (d + 1) - BitVec.ofNat 32 n = BitVec.ofNat 32 d - BitVec.ofNat 32 n + 1
  rw [BitVec.ofNat_add]
  bv_omega

theorem delays_iff_wrap :
    ¬ ((Counter.init ⟨none, 0⟩ TIMER_FREQ HZ).divisor.toNat = TIMER_FREQ / HZ ∧
        OnTime (fun d => (ticking 3 d).ticks) 200) ∧
      (OnTime (fun d => (ticking 3 d).ticks) 200 ↔ 200 ≤ 42949670) :=
  delays_iff (ticking_runs 3) (by decide) ⟨none, 0⟩

/-- The divisor is 155, and a delay of 42949671 milliseconds does not end in time. -/
theorem timer_divisor_and_long_delay :
    (Counter.init ⟨none, 0⟩ TIMER_FREQ HZ).divisor.toNat ≠ TIMER_FREQ / HZ ∧
      ¬ OnTime (fun d => (ticking 3 d).ticks) 42949671 := by
  constructor
  · decide
  · rw [(ticking_runs 3).onTime_iff (by decide)]
    decide

end SimpleOs
