import SimpleOs.Lib.Transition
import SimpleOs.Tty.KeyDisplay

/-!
# The two input buffers

`kb_buf` of tty/keyboard.c, which the keyboard interrupt fills, and the `inbuf` of a
terminal, which `put_key` fills.

* `kbRun_fifo_iff`: `kb_buf` is a bounded queue until the digits that the interrupts show
  reach the kernel.
* `inRun_fifo_iff`: `inbuf` is one exactly in the runs in which `get_data_from_tty_buf`
  finds it empty. That function leaves the tail where it is, and it narrows the key to a
  byte.
-/

namespace SimpleOs

open ByteMem Ring Transition

namespace Terminal

/-! ## `kb_buf` -/

/-- `init_keyboard` (tty/keyboard.c:20-33), as far as `kb_buf` is concerned. -/
def initKeyboard (s : State) : State :=
  { s with kbBuf := { s.kbBuf with count := 0, head := 0, tail := 0 } }

/-- `keyboard_handler`, the scan codes that have arrived while `kb_buf` was not full, and
    the bytes that `get_byte_from_kb_buf` has returned. -/
structure KbTrace where
  handler : Handler
  arrived : List Byte
  returned : List Byte

def KbTrace.kbBuf (t : KbTrace) : RingBuffer Byte := t.handler.state.kbBuf

/-- A keyboard interrupt, or a call of `get_byte_from_kb_buf`. -/
inductive KbOp where
  | irq (scanCode : Byte)
  | get

/-- One step. `get_byte_from_kb_buf` does not return while the buffer is empty. -/
def KbTrace.perform (t : KbTrace) : KbOp → Except Fault KbTrace
  | .irq scanCode => do
    let handler ← keyboardHandler t.handler scanCode
    .ok
      { t with
        handler := handler
        arrived := if t.kbBuf.count < KB_NUM then t.arrived ++ [scanCode] else t.arrived }
  | .get =>
    if 0 < t.kbBuf.count then
      let r := getByteFromKbBuf t.handler.state
      .ok { t with handler := { t.handler with state := r.2 }, returned := t.returned ++ [r.1] }
    else .error .spin

/-- The steps `ops` behind `init_keyboard`. -/
def kbRun (s0 : State) (ops : List KbOp) : Except Fault KbTrace :=
  ops.foldlM KbTrace.perform ⟨⟨initKeyboard s0, 0, []⟩, [], []⟩

/-- The scan codes of the interrupts. -/
def scanCodes (ops : List KbOp) : List Byte :=
  ops.filterMap fun op =>
    match op with
    | .irq scanCode => some scanCode
    | .get => none

/-- `get_byte_from_kb_buf` is only called when bytes are waiting. -/
def NeverWaits (s0 : State) (ops : List KbOp) : Prop :=
  ∀ pre t, pre ++ [.get] <+: ops → kbRun s0 pre = .ok t → 0 < t.kbBuf.count

/-- `kb_buf` is a bounded queue. Both pointers are in the buffer, at most `KB_NUM` bytes are
    waiting and the head is that many places ahead of the tail; what has arrived while
    there was room is what has been returned and what is waiting, in order; and a scan
    code that finds the buffer full is dropped. -/
structure KbTrace.IsQueue (t : KbTrace) : Prop where
  fifo : Fifo KB_NUM t.kbBuf t.arrived t.returned
  full : t.kbBuf.count = KB_NUM → ∀ scanCode t', t.perform (.irq scanCode) = .ok t' →
    t'.kbBuf = t.kbBuf ∧ t'.arrived = t.arrived ∧ t'.returned = t.returned

/-- The digits that the interrupts show stay below the kernel. -/
def InterruptsFit (codes : List Byte) : Prop :=
  codes.length ≤ 48565 ∨
    codes.length = 48566 ∧ ∀ scanCode, codes.getLast? = some scanCode → scanCode < 0x10

/-! ### One step -/

/-- The queue, and the position of the digits behind `n` interrupts. -/
structure KbInv (t : KbTrace) (n : ℕ) : Prop where
  fifo : Fifo KB_NUM t.kbBuf t.arrived t.returned
  curPos : t.handler.curPos = BitVec.ofNat 32 (3 * n)

theorem perform_irq {t t' : KbTrace} {scanCode : Byte} {n : ℕ} (h : KbInv t n) (hn : n < 2 ^ 20) :
    t.perform (.irq scanCode) = .ok t' ↔ RoomAt n scanCode ∧ t' =
      { t with
        handler := t.handler.interrupt scanCode
        arrived := if t.kbBuf.count < KB_NUM then t.arrived ++ [scanCode] else t.arrived } := by
  unfold KbTrace.perform
  simp only [bind_eq_ok, keyboardHandler_ok_iff h.curPos hn]
  constructor
  · rintro ⟨handler, ⟨hroom, rfl⟩, heq⟩
    exact ⟨hroom, (Except.ok.inj heq).symm⟩
  · rintro ⟨hroom, rfl⟩
    exact ⟨_, ⟨hroom, rfl⟩, rfl⟩

/-- The digits do not fit. -/
theorem perform_overrun {t : KbTrace} {scanCode : Byte} {n : ℕ} (h : KbInv t n) (hn : n < 2 ^ 20)
    (hroom : ¬ RoomAt n scanCode) : t.perform (.irq scanCode) = .error .overrun := by
  rw [KbTrace.perform, keyboardHandler_overrun h.curPos hn hroom]
  rfl

theorem KbInv.irq {t t' : KbTrace} {scanCode : Byte} {n : ℕ} (h : KbInv t n) (hn : n < 2 ^ 20)
    (hop : t.perform (.irq scanCode) = .ok t') : KbInv t' (n + 1) := by
  obtain ⟨_, rfl⟩ := (perform_irq h hn).mp hop
  exact ⟨h.fifo.push scanCode, Handler.interrupt_curPos h.curPos scanCode⟩

theorem KbInv.get {t : KbTrace} {n : ℕ} (h : KbInv t n) (hcount : 0 < t.kbBuf.count) :
    ∃ t', t.perform .get = .ok t' ∧ KbInv t' n :=
  ⟨_, if_pos hcount, h.fifo.pop (by omega), h.curPos⟩

/-- A code that finds the buffer full is dropped. -/
theorem KbInv.isQueue {t : KbTrace} {n : ℕ} (h : KbInv t n) (hn : n < 2 ^ 20) : t.IsQueue := by
  refine ⟨h.fifo, fun hfull scanCode t' hop => ?_⟩
  obtain ⟨_, rfl⟩ := (perform_irq h hn).mp hop
  have hnot : ¬ t.kbBuf.count < KB_NUM := by omega
  refine ⟨?_, if_neg hnot, rfl⟩
  show push KB_NUM t.kbBuf scanCode = t.kbBuf
  rw [push, if_neg hnot]

/-! ### Runs -/

section KbRuns

variable {s0 : State} {ops pre : List KbOp} {op : KbOp} {t t' : KbTrace} {codes : List Byte}
  {scanCode : Byte}

theorem kbRun_append : kbRun s0 (pre ++ [op]) = kbRun s0 pre >>= fun t => t.perform op := by
  unfold kbRun
  rw [List.foldlM_append]
  simp

theorem kbRun_concat :
    kbRun s0 (pre ++ [op]) = .ok t' ↔ ∃ t, kbRun s0 pre = .ok t ∧ t.perform op = .ok t' := by
  rw [kbRun_append, bind_eq_ok]

theorem scanCodes_irq (pre : List KbOp) (scanCode : Byte) :
    scanCodes (pre ++ [.irq scanCode]) = scanCodes pre ++ [scanCode] := List.filterMap_append ..

theorem scanCodes_get (pre : List KbOp) : scanCodes (pre ++ [.get]) = scanCodes pre :=
  (List.filterMap_append ..).trans (List.append_nil _)

/-- Every code of a list that fits has room behind those before it. -/
theorem InterruptsFit.roomAt (h : InterruptsFit codes) {before : List Byte}
    (hpre : before ++ [scanCode] <+: codes) : RoomAt before.length scanCode := by
  obtain ⟨rest, rfl⟩ := hpre
  have hlen : (before ++ [scanCode] ++ rest).length = before.length + 1 + rest.length := by
    rw [List.length_append, List.length_append, List.length_singleton]
  rcases h with hfew | ⟨hlast, hdigit⟩
  · exact .inl (by omega)
  · cases rest with
    | nil => exact .inr ⟨by rw [List.length_nil] at hlen; omega, hdigit _ (by simp)⟩
    | cons _ _ =>
      rw [List.length_cons] at hlen
      exact .inl (by omega)

theorem InterruptsFit.concat (h : RoomAt codes.length scanCode) :
    InterruptsFit (codes ++ [scanCode]) := by
  have hlen : (codes ++ [scanCode]).length = codes.length + 1 := by simp
  rcases h with hbefore | ⟨hlast, hdigit⟩
  · exact .inl (by omega)
  · refine .inr ⟨by omega, fun code hcode => ?_⟩
    rw [List.getLast?_concat] at hcode
    rwa [← Option.some.inj hcode]

theorem InterruptsFit.length_lt (h : InterruptsFit codes) : codes.length < 2 ^ 20 := by
  rcases h with h | h
  · omega
  · omega

/-- A run that has come this far. -/
theorem kbRun_inv (h : kbRun s0 pre = .ok t) :
    InterruptsFit (scanCodes pre) ∧ KbInv t (scanCodes pre).length := by
  induction pre using List.reverseRecOn generalizing t with
  | nil =>
    obtain rfl := Except.ok.inj h
    exact ⟨.inl (Nat.zero_le _), Fifo.empty _ (by decide), rfl⟩
  | append_singleton pre op ih =>
    obtain ⟨t₁, hrun, hop⟩ := kbRun_concat.mp h
    obtain ⟨hfit, hinv⟩ := ih hrun
    cases op with
    | irq scanCode =>
      have hroom := ((perform_irq hinv hfit.length_lt).mp hop).1
      rw [scanCodes_irq, List.length_append]
      exact ⟨.concat hroom, hinv.irq hfit.length_lt hop⟩
    | get =>
      rw [scanCodes_get]
      refine ⟨hfit, ?_⟩
      by_cases hcount : 0 < t₁.kbBuf.count
      · obtain ⟨t₂, hget, hinv'⟩ := hinv.get hcount
        rw [hget] at hop
        rwa [← Except.ok.inj hop]
      · rw [KbTrace.perform, if_neg hcount] at hop
        cases hop

/-- The interrupts that fit are handled. -/
theorem kbRun_total (hwaits : NeverWaits s0 ops) (hfit : InterruptsFit (scanCodes ops))
    (hpre : pre <+: ops) : ∃ t, kbRun s0 pre = .ok t := by
  refine prefix_induction (P := fun pre => ∃ t, kbRun s0 pre = .ok t) ⟨_, rfl⟩
    (fun pre op hpre ih => ?_) hpre
  obtain ⟨t, hrun⟩ := ih
  obtain ⟨hfit', hinv⟩ := kbRun_inv hrun
  cases op with
  | irq scanCode =>
    have hcodes : scanCodes pre ++ [scanCode] <+: scanCodes ops := by
      rw [← scanCodes_irq]
      exact hpre.filterMap _
    exact ⟨_, kbRun_concat.mpr
      ⟨t, hrun, (perform_irq hinv hfit'.length_lt).mpr ⟨hfit.roomAt hcodes, rfl⟩⟩⟩
  | get =>
    obtain ⟨t', hget, _⟩ := hinv.get (hwaits pre t hpre hrun)
    exact ⟨t', kbRun_concat.mpr ⟨t, hrun, hget⟩⟩

end KbRuns

/-! ## `inbuf` -/

/-- `get_data_from_tty_buf` (tty/tty.c:82-94): the value it returns, and the state. -/
def getDataFromTtyBuf (s : State) (t : TtyId) : ℤ × State :=
  let tty := s.ttyTable t
  if tty.inbuf.count ≠ 0 then
    let ch : Byte := (tty.inbuf.buf tty.inbuf.tail).setWidth 8
    let tail := if tty.inbuf.tail = TTY_IN_BYTES_NUM then 0 else tty.inbuf.tail
    (ch.toNat, s.setTty t
      { tty with inbuf := { tty.inbuf with tail := tail, count := tty.inbuf.count - 1 } })
  else (-1, s)

/-- The functions that use the buffer. -/
inductive InOp where
  | putKey (key : BitVec 32)
  | ttyDoWrite
  | getDataFromTtyBuf

/-- The state, the keys that have been put in while there was room, and the values that have
    been taken out. -/
structure InTrace where
  state : State
  accepted : List (BitVec 32)
  taken : List (BitVec 32)

/-- The buffer of the terminal `t`. -/
def InTrace.inbuf (tr : InTrace) (t : TtyId) : RingBuffer (BitVec 32) :=
  (tr.state.ttyTable t).inbuf

/-- One call. -/
def InTrace.perform (t : TtyId) (tr : InTrace) : InOp → Option InTrace
  | .putKey key => some
      { tr with
        state := putKey tr.state t key
        accepted :=
          if (tr.inbuf t).count < TTY_IN_BYTES_NUM then tr.accepted ++ [key] else tr.accepted }
  | .ttyDoWrite => (ttyDoWrite tr.state t).map fun s =>
      { tr with
        state := s
        taken :=
          if (tr.inbuf t).count ≠ 0 then tr.taken ++ [(tr.inbuf t).buf (tr.inbuf t).tail]
          else tr.taken }
  | .getDataFromTtyBuf =>
      let r := getDataFromTtyBuf tr.state t
      some
        { tr with
          state := r.2
          taken := if r.1 ≠ -1 then tr.taken ++ [BitVec.ofInt 32 r.1] else tr.taken }

/-- The calls `ops` on the terminal `t` that `init_tty` has set up. -/
def inRun (s0 : State) (t : TtyId) (ops : List InOp) : Option InTrace :=
  ops.foldlM (InTrace.perform t) ⟨initTty s0 t, [], []⟩

/-- The buffer is a queue. -/
def InTrace.IsFifo (t : TtyId) (tr : InTrace) : Prop :=
  Fifo TTY_IN_BYTES_NUM (tr.inbuf t) tr.accepted tr.taken

/-! ### One call -/

section Perform

variable {t : TtyId} {tr tr' : InTrace}

theorem getDataFromTtyBuf_empty {s : State} (hcount : (s.ttyTable t).inbuf.count = 0) :
    getDataFromTtyBuf s t = (-1, s) := if_neg fun h => h hcount

theorem perform_putKey {key : BitVec 32} (h : tr.perform t (.putKey key) = some tr') :
    tr'.inbuf t = push TTY_IN_BYTES_NUM (tr.inbuf t) key ∧ tr'.taken = tr.taken ∧
      tr'.accepted =
        if (tr.inbuf t).count < TTY_IN_BYTES_NUM then tr.accepted ++ [key] else tr.accepted := by
  obtain rfl := Option.some.inj h
  refine ⟨?_, rfl, rfl⟩
  simp [InTrace.inbuf, putKey]

theorem perform_ttyDoWrite (h : tr.perform t .ttyDoWrite = some tr') :
    tr'.accepted = tr.accepted ∧
      (((tr.inbuf t).count = 0 ∧ tr'.inbuf t = tr.inbuf t ∧ tr'.taken = tr.taken) ∨
        ((tr.inbuf t).count ≠ 0 ∧ tr'.inbuf t = (pop TTY_IN_BYTES_NUM (tr.inbuf t)).2 ∧
          tr'.taken = tr.taken ++ [(pop TTY_IN_BYTES_NUM (tr.inbuf t)).1])) := by
  obtain ⟨s', hwrite, rfl⟩ := Option.map_eq_some_iff.mp h
  refine ⟨rfl, ?_⟩
  by_cases hcount : (tr.inbuf t).count = 0
  · rw [ttyDoWrite_empty hcount] at hwrite
    refine .inl ⟨hcount, ?_, by simp [hcount]⟩
    rw [InTrace.inbuf, ← Option.some.inj hwrite]
    rfl
  · refine .inr ⟨hcount, ?_, if_pos hcount⟩
    unfold ttyDoWrite at hwrite
    rw [if_pos (by exact hcount)] at hwrite
    dsimp only at hwrite
    split at hwrite
    · cases hwrite
    · rw [InTrace.inbuf, ← Option.some.inj hwrite]
      show ((tr.state.setTty t _).ttyTable t).inbuf = _
      rw [State.setTty_self]
      rfl

theorem perform_get_empty (hcount : (tr.inbuf t).count = 0) :
    tr.perform t .getDataFromTtyBuf = some tr := by
  simp [InTrace.perform, getDataFromTtyBuf_empty hcount]

/-- The tail stays where it is. -/
theorem perform_get (h : tr.perform t .getDataFromTtyBuf = some tr')
    (hin : InBounds TTY_IN_BYTES_NUM (tr.inbuf t)) :
    tr'.inbuf t = { tr.inbuf t with count := (tr.inbuf t).count - 1 } := by
  by_cases hcount : (tr.inbuf t).count = 0
  · rw [perform_get_empty hcount] at h
    have hsame : (tr.inbuf t).count - 1 = (tr.inbuf t).count := by omega
    rw [← Option.some.inj h, hsame]
  · have hne : (tr.inbuf t).tail ≠ TTY_IN_BYTES_NUM := by
      have htail := hin.tail
      omega
    rw [← Option.some.inj h]
    unfold InTrace.inbuf at hcount hne ⊢
    simp only [getDataFromTtyBuf, if_pos hcount, if_neg hne, State.setTty_self]

/-- The pointers stay in the buffer whatever is called. -/
theorem inBounds_perform {op : InOp} (hin : InBounds TTY_IN_BYTES_NUM (tr.inbuf t))
    (h : tr.perform t op = some tr') : InBounds TTY_IN_BYTES_NUM (tr'.inbuf t) := by
  cases op with
  | putKey key =>
    rw [(perform_putKey h).1]
    exact hin.push key
  | ttyDoWrite =>
    rcases (perform_ttyDoWrite h).2 with ⟨_, hsame, _⟩ | ⟨_, hpop, _⟩
    · rw [hsame]
      exact hin
    · rw [hpop]
      exact hin.pop
  | getDataFromTtyBuf =>
    rw [perform_get h hin]
    exact ⟨hin.head, hin.tail, Nat.le_trans (Nat.sub_le ..) hin.count⟩

/-- The call does not take a key out with `get_data_from_tty_buf`. -/
def Advances (t : TtyId) (tr : InTrace) : InOp → Prop
  | .getDataFromTtyBuf => (tr.inbuf t).count = 0
  | _ => True

/-- The step lemma: the buffer stays a queue if and only if the call is not one of
    `get_data_from_tty_buf` that takes a key out. -/
theorem isFifo_perform {op : InOp} (hfifo : tr.IsFifo t) (h : tr.perform t op = some tr') :
    tr'.IsFifo t ↔ Advances t tr op := by
  unfold InTrace.IsFifo at *
  cases op with
  | putKey key =>
    obtain ⟨hbuf, htaken, haccepted⟩ := perform_putKey h
    rw [hbuf, htaken, haccepted]
    exact iff_of_true (hfifo.push key) trivial
  | ttyDoWrite =>
    obtain ⟨haccepted, hcase⟩ := perform_ttyDoWrite h
    refine iff_of_true ?_ trivial
    rcases hcase with ⟨_, hbuf, htaken⟩ | ⟨hcount, hbuf, htaken⟩
    · rw [hbuf, htaken, haccepted]
      exact hfifo
    · rw [hbuf, htaken, haccepted]
      exact hfifo.pop hcount
  | getDataFromTtyBuf =>
    show _ ↔ (tr.inbuf t).count = 0
    constructor
    · intro hfifo'
      have hahead := hfifo'.ahead
      rw [perform_get h hfifo.toInBounds] at hahead
      have hbefore := hfifo.ahead
      have hle := hfifo.count
      simp only [TTY_IN_BYTES_NUM] at hahead hbefore hle
      omega
    · intro hcount
      rw [perform_get_empty hcount] at h
      rw [← Option.some.inj h]
      exact hfifo

end Perform

/-! ### Runs -/

section Runs

variable {s0 : State} {t : TtyId} {ops pre : List InOp} {op : InOp} {tr tr' : InTrace}

theorem initTty_isFifo (s0 : State) (t : TtyId) :
    InTrace.IsFifo t ⟨initTty s0 t, [], []⟩ := by
  have hbuf : ((initTty s0 t).ttyTable t).inbuf = ⟨(s0.ttyTable t).inbuf.buf, 0, 0, 0⟩ := by
    simp [initTty]
  show Fifo TTY_IN_BYTES_NUM ((initTty s0 t).ttyTable t).inbuf [] []
  rw [hbuf]
  exact Fifo.empty _ (by decide)

theorem inRun_concat :
    inRun s0 t (pre ++ [op]) = some tr' ↔
      ∃ tr, inRun s0 t pre = some tr ∧ tr.perform t op = some tr' := by
  unfold inRun
  rw [List.foldlM_append]
  simp [Option.bind_eq_some_iff]

/-- No call accesses `tty_table` outside its bounds. -/
theorem perform_total {cur : TtyId} (hcur : tr.state.curTtyIndex = cur.val) (op : InOp) :
    ∃ tr', tr.perform t op = some tr' ∧ tr'.state.curTtyIndex = cur.val := by
  cases op with
  | putKey key => exact ⟨_, rfl, hcur⟩
  | ttyDoWrite =>
    by_cases hcount : (tr.state.ttyTable t).inbuf.count = 0
    · refine ⟨_, congrArg (Option.map _) (ttyDoWrite_empty hcount), hcur⟩
    · exact ⟨_, congrArg (Option.map _) (ttyDoWrite_eq hcur hcount), hcur⟩
  | getDataFromTtyBuf =>
    refine ⟨_, rfl, ?_⟩
    by_cases hcount : (tr.inbuf t).count = 0
    · rw [getDataFromTtyBuf_empty hcount]
      exact hcur
    · have hget : (getDataFromTtyBuf tr.state t).2 = tr.state.setTty t _ :=
        congrArg Prod.snd (if_pos hcount)
      rw [hget]
      exact hcur

theorem inRun_total {cur : TtyId} (hcur : s0.curTtyIndex = cur.val) (ops : List InOp) :
    ∃ tr, inRun s0 t ops = some tr ∧ tr.state.curTtyIndex = cur.val := by
  induction ops using List.reverseRecOn with
  | nil => exact ⟨_, rfl, hcur⟩
  | append_singleton ops op ih =>
    obtain ⟨tr, hrun, htr⟩ := ih
    obtain ⟨tr', hop, htr'⟩ := perform_total htr op
    exact ⟨tr', inRun_concat.mpr ⟨tr, hrun, hop⟩, htr'⟩

/-- The invariant rule for the calls of a run. -/
theorem inRun_invariant {I : InTrace → Prop} (h0 : I ⟨initTty s0 t, [], []⟩)
    (hstep : ∀ pre op tr tr', pre ++ [op] <+: ops → inRun s0 t pre = some tr →
      tr.perform t op = some tr' → I tr → I tr')
    (hpre : pre <+: ops) (h : inRun s0 t pre = some tr) : I tr := by
  have hall : ∀ tr, inRun s0 t pre = some tr → I tr := by
    refine prefix_induction (P := fun pre => ∀ tr, inRun s0 t pre = some tr → I tr) ?_ ?_ hpre
    · intro tr h
      rw [← Option.some.inj h]
      exact h0
    · intro pre op hpre ih tr h
      obtain ⟨tr₁, hrun, hop⟩ := inRun_concat.mp h
      exact hstep pre op tr₁ tr hpre hrun hop (ih tr₁ hrun)
  exact hall tr h

/-- For every sequence of calls on a terminal that `init_tty` has set up: whatever is called,
    the pointers stay in the buffer and at most `TTY_IN_BYTES_NUM` keys are waiting; and the
    buffer is a queue in every state if and only if `get_data_from_tty_buf` is only
    called while no key is waiting. No call is outside `tty_table` when the current
    terminal is one of it. -/
theorem inRun_fifo_iff (s0 : State) (t : TtyId) (ops : List InOp) :
    (∀ tr, inRun s0 t ops = some tr → InBounds TTY_IN_BYTES_NUM (tr.inbuf t)) ∧
    ((∀ pre tr, pre <+: ops → inRun s0 t pre = some tr → tr.IsFifo t) ↔
      ∀ pre tr, pre ++ [.getDataFromTtyBuf] <+: ops → inRun s0 t pre = some tr →
        (tr.inbuf t).count = 0) ∧
    ((∃ cur : TtyId, s0.curTtyIndex = cur.val) → ∃ tr, inRun s0 t ops = some tr) := by
  refine ⟨fun tr h => ?_, ⟨fun hall pre tr hpre h => ?_, fun hall pre tr hpre h => ?_⟩, ?_⟩
  · exact inRun_invariant (initTty_isFifo s0 t).toInBounds
      (fun _ _ _ _ _ _ hop hin => inBounds_perform hin hop) (List.prefix_refl ops) h
  · obtain ⟨tr', hop⟩ : ∃ tr', tr.perform t .getDataFromTtyBuf = some tr' := ⟨_, rfl⟩
    have hfifo := hall pre tr ((List.prefix_append ..).trans hpre) h
    have hfifo' := hall _ tr' hpre (inRun_concat.mpr ⟨tr, h, hop⟩)
    exact (isFifo_perform hfifo hop).mp hfifo'
  · have hstep : ∀ pre op tr tr', pre ++ [op] <+: ops → inRun s0 t pre = some tr →
        tr.perform t op = some tr' → tr.IsFifo t → tr'.IsFifo t := by
      intro pre op tr tr' hpre hrun hop hfifo
      refine (isFifo_perform hfifo hop).mpr ?_
      cases op with
      | putKey key => trivial
      | ttyDoWrite => trivial
      | getDataFromTtyBuf => exact hall pre tr hpre hrun
    exact inRun_invariant (initTty_isFifo s0 t) hstep hpre h
  · rintro ⟨cur, hcur⟩
    obtain ⟨tr, hrun, _⟩ := inRun_total (t := t) hcur ops
    exact ⟨tr, hrun⟩

/-- Two keys are typed, and the first is taken out twice. -/
theorem first_key_twice : ∃ tr,
    inRun bss 0 [.putKey 0x61, .putKey 0x62, .getDataFromTtyBuf, .getDataFromTtyBuf] = some tr ∧
      tr.accepted = [0x61, 0x62] ∧ tr.taken = [0x61, 0x61] ∧ ¬ tr.IsFifo 0 := by
  refine ⟨_, rfl, rfl, rfl, fun hfifo => ?_⟩
  have hahead := hfifo.ahead
  exact absurd hahead (by decide)

end Runs

end Terminal

end SimpleOs
