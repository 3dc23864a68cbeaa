import SimpleOs.Kernel.Init

/-!
# What one IPC call can do

Every call of `msg_send` or `msg_receive` that returns has one of five effects:
a message is delivered to a waiting receiver, the sender is queued, a queued
message is taken, the receiver is parked, or a pending interrupt message is
taken. The five effects are given as functions on the process table
(`deliver`, `enqueue`, `dequeue`, `park`, `clearInt`), and `msgSend_outcome`,
`msgReceive_outcome` say once and for all which of them a call has and what its
assertions have established. Everything later is derived from these.
-/

namespace SimpleOs

open ByteMem

/-! ## Vocabulary -/

/-- `p->p_flags & SENDING`. -/
def Sending (p : Process) : Prop := p.pFlags &&& SENDING ≠ 0

instance (p : Process) : Decidable (Sending p) := inferInstanceAs (Decidable (_ ≠ _))

/-- Testing a flag is testing its bit. -/
theorem and_flag_ne_zero (f : BitVec 32) (i : ℕ) (hi : i < 32) :
    f &&& BitVec.twoPow 32 i ≠ 0 ↔ f.getLsbD i = true := by
  rw [BitVec.and_twoPow]
  split_ifs with h
  · simp only [h, iff_true]
    intro hc
    have := congrArg (fun b : BitVec 32 => b.getLsbD i) hc
    simp [hi] at this
  · simp [h]

theorem sending_iff {p : Process} : Sending p ↔ p.pFlags.getLsbD 1 = true :=
  and_flag_ne_zero p.pFlags 1 (by omega)

/-- `s` is blocked in a send to `d`. -/
def SendsTo (t : ProcTable) (s d : Pid) : Prop := Sending (t s) ∧ (t s).pSendto = proc2pid d

instance (t : ProcTable) (s d : Pid) : Decidable (SendsTo t s d) :=
  inferInstanceAs (Decidable (_ ∧ _))

/-- `d` is blocked in a receive that accepts a message from `s`. -/
def Accepts (t : ProcTable) (d s : Pid) : Prop :=
  (t d).pFlags &&& RECEIVING ≠ 0 ∧ ((t d).pRecvfrom = proc2pid s ∨ (t d).pRecvfrom = ANY)

instance (t : ProcTable) (d s : Pid) : Decidable (Accepts t d s) :=
  inferInstanceAs (Decidable (_ ∧ _))

/-! ## The five effects on the table -/

/-- The waiting receiver `d` is released. -/
def deliver (t : ProcTable) (d : Pid) : ProcTable := fun p =>
  { t p with
    msg := if p = d then 0 else (t p).msg
    pFlags := if p = d then (t p).pFlags &&& ~~~RECEIVING else (t p).pFlags
    pRecvfrom := if p = d then NO_TASK else (t p).pRecvfrom }

/-- `s` is appended to the queue of `d`, whose last element is `tail`. -/
def enqueue (t : ProcTable) (s d : Pid) (m : Addr) (tail : Option Pid) : ProcTable := fun p =>
  { t p with
    pFlags := if p = s then (t p).pFlags ||| SENDING else (t p).pFlags
    pSendto := if p = s then proc2pid d else (t p).pSendto
    msg := if p = s then m else (t p).msg
    qSending := if p = d ∧ tail = none then some s else (t p).qSending
    nextSending := if p = s then none else if tail = some p then some s else (t p).nextSending }

/-- `f` is removed from the queue of `d`, where it follows `prev`, and
    released. -/
def dequeue (t : ProcTable) (d f : Pid) (prev : Option Pid) : ProcTable := fun p =>
  { t p with
    qSending := if p = d ∧ prev = none then (t f).nextSending else (t p).qSending
    nextSending :=
      if p = f then none else if prev = some p then (t f).nextSending else (t p).nextSending
    msg := if p = f then 0 else (t p).msg
    pSendto := if p = f then NO_TASK else (t p).pSendto
    pFlags := if p = f then (t p).pFlags &&& ~~~SENDING else (t p).pFlags }

/-- `d` waits for a message from `r`. -/
def park (t : ProcTable) (d : Pid) (r : ℤ) (m : Addr) : ProcTable := fun p =>
  { t p with
    pFlags := if p = d then (t p).pFlags ||| RECEIVING else (t p).pFlags
    msg := if p = d then m else (t p).msg
    pRecvfrom := if p = d then r else (t p).pRecvfrom }

/-- The pending interrupt of `d` is taken. -/
def clearInt (t : ProcTable) (d : Pid) : ProcTable := fun p =>
  { t p with hasIntMsg := if p = d then 0 else (t p).hasIntMsg }

theorem deliver_flags {t : ProcTable} {d : Pid} (h : (t d).pFlags &&& ~~~RECEIVING = 0) :
    (deliver t d d).pFlags = 0 := by
  simpa [deliver] using h

theorem enqueue_flags {t : ProcTable} {s : Pid} (d : Pid) (m : Addr) (tail : Option Pid)
    (h : (t s).pFlags = 0) : (enqueue t s d m tail s).pFlags = SENDING := by
  simp [enqueue, h]

theorem dequeue_flags {t : ProcTable} {f : Pid} (d : Pid) (prev : Option Pid)
    (h : (t f).pFlags = SENDING) : (dequeue t d f prev f).pFlags = 0 := by
  simp [dequeue, h]

theorem park_flags {t : ProcTable} {d : Pid} (r : ℤ) (m : Addr) (h : (t d).pFlags = 0) :
    (park t d r m d).pFlags = RECEIVING := by
  simp [park, h]

/-! ## The parts of the calls that return -/

theorem va2la_eq_ok {k : Machine} {p : Pid} {va la : Addr} (h : va2la k (proc2pid p) va = .ok la) :
    la = linear k.procTable p va := by
  simp only [va2la, slot_proc2pid, bind_eq_ok, Except.ok.injEq, exists_eq_left'] at h
  split_ifs at h
  · simp only [assert_bind_eq_ok, Except.ok.injEq] at h
    exact h.2.symm
  · simp only [Except.ok.injEq] at h
    exact h.symm

theorem schedule_eq_ok {k k' : Machine} (h : schedule k = .ok k') :
    ∃ r, k' = { k with readyProcess := r } := by
  simp only [schedule, bind_eq_ok, Except.ok.injEq] at h
  obtain ⟨r, _, rfl⟩ := h
  exact ⟨r, rfl⟩

theorem block_eq_ok {k k' : Machine} {p : Pid} (h : block k p = .ok k') :
    ∃ r, k' = { k with readyProcess := r } := by
  simp only [block, assert_bind_eq_ok] at h
  exact schedule_eq_ok h.2

/-- The loop over the queue reads the links only. -/
theorem lastSending_congr {t t' : ProcTable} (h : ∀ p, (t' p).nextSending = (t p).nextSending) :
    ∀ fuel p, lastSending t' fuel p = lastSending t fuel p := by
  intro fuel
  induction fuel with
  | zero => intro p; rfl
  | succ fuel ih =>
    intro p
    rw [lastSending, lastSending, h p]
    cases (t p).nextSending with
    | none => rfl
    | some q => exact ih q

/-! ## `msg_send` -/

/-- `tail` is the last element of the queue of `d`, as the loop of `msg_send`
    finds it. -/
def FindsTail (t : ProcTable) (d : Pid) (tail : Option Pid) : Prop :=
  match (t d).qSending with
  | none => tail = none
  | some p => ∃ q, lastSending t 35 p = .ok q ∧ tail = some q

/-- The effects of a call `msg_send(s, d, m)` that returns. -/
inductive SendOutcome (k : Machine) (s d : Pid) (m : Addr) : Machine → Prop
  | deliver (haccepts : Accepts k.procTable d s) (hmsg : (k.procTable d).msg ≠ 0)
      (hflags : (k.procTable d).pFlags &&& ~~~RECEIVING = 0)
      (hsendto : (k.procTable d).pSendto = NO_TASK) :
      SendOutcome k s d m
        { k with
          procTable := SimpleOs.deliver k.procTable d
          mem := pAsmMemcpy k.mem (linear k.procTable d (k.procTable d).msg)
            (linear k.procTable s m) sizeofMessage }
  | enqueue (haccepts : ¬ Accepts k.procTable d s)
      (hflags : (k.procTable s).pFlags ||| SENDING = SENDING)
      (tail : Option Pid) (htail : FindsTail k.procTable d tail) (r : Pid) :
      SendOutcome k s d m
        { k with
          procTable := SimpleOs.enqueue k.procTable s d m tail
          readyProcess := r }

theorem msgSendDeliver_outcome {k k' : Machine} {s d : Pid} {m : Addr} (hsd : s ≠ d)
    (hacc : Accepts k.procTable d s) (h : msgSendDeliver k s d m = .ok k') :
    SendOutcome k s d m k' := by
  simp only [msgSendDeliver, unblock, bind_eq_ok, assert_eq_ok, exists_const,
    Machine.modify_procTable, Function.update_self, Function.update_idem,
    Function.update_of_ne hsd, Except.ok.injEq] at h
  obtain ⟨hmsg, _, la, hla, ls, hls, hflags, _, _, _, hsendto, _, _, _, _, rfl⟩ := h
  obtain rfl := va2la_eq_ok hla
  obtain rfl := va2la_eq_ok hls
  convert SendOutcome.deliver hacc hmsg hflags hsendto using 1
  simp only [Machine.modify, Function.update_self, Function.update_idem, Machine.mk.injEq, and_true]
  funext p
  by_cases hp : p = d
  · subst hp
    simp [deliver]
  · simp [deliver, hp]

/-- The links after `sender` has been appended to the queue of `d`. -/
theorem appendSending_eq_ok {k k' : Machine} {s d : Pid} (h : appendSending k s d = .ok k') :
    ∃ tail, FindsTail k.procTable d tail ∧
      k' = { k with procTable := fun p =>
        { k.procTable p with
          qSending := if p = d ∧ tail = none then some s else (k.procTable p).qSending
          nextSending := if tail = some p then some s else (k.procTable p).nextSending } } := by
  unfold appendSending at h
  cases hhead : (k.procTable d).qSending with
  | none =>
    simp only [hhead, Except.ok.injEq] at h
    refine ⟨none, by simp [FindsTail, hhead], ?_⟩
    rw [← h]
    simp only [Machine.modify, Machine.mk.injEq, and_true]
    funext p
    by_cases hp : p = d
    · subst hp; simp
    · simp [hp]
  | some q =>
    simp only [hhead, bind_eq_ok, Except.ok.injEq] at h
    obtain ⟨tail, hlast, h⟩ := h
    refine ⟨some tail, by simp [FindsTail, hhead, hlast], ?_⟩
    rw [← h]
    simp only [Machine.modify, Machine.mk.injEq, and_true]
    funext p
    by_cases hp : p = tail
    · subst hp; simp
    · simp [hp, Ne.symm hp]

theorem FindsTail.congr {t t' : ProcTable} {d : Pid} {tail : Option Pid}
    (hq : (t' d).qSending = (t d).qSending) (hn : ∀ p, (t' p).nextSending = (t p).nextSending)
    (h : FindsTail t' d tail) : FindsTail t d tail := by
  unfold FindsTail at *
  rw [hq] at h
  simpa only [lastSending_congr hn] using h

theorem msgSendBlock_outcome {k k' : Machine} {s d : Pid} {m : Addr}
    (hacc : ¬ Accepts k.procTable d s) (h : msgSendBlock k s d (proc2pid d) m = .ok k') :
    SendOutcome k s d m k' := by
  simp only [msgSendBlock, bind_eq_ok, assert_eq_ok, exists_const, Machine.modify_procTable,
    Function.update_self, Except.ok.injEq] at h
  obtain ⟨hflags, k1, hq, k2, hblock, _, _, _, _, rfl⟩ := h
  obtain ⟨tail, htail, rfl⟩ := appendSending_eq_ok hq
  obtain ⟨r, rfl⟩ := block_eq_ok hblock
  have htail' : FindsTail k.procTable d tail := by
    refine htail.congr ?_ fun p => ?_
    · by_cases hd : d = s
      · subst hd; simp
      · simp [hd]
    · by_cases hp : p = s
      · subst hp; simp
      · simp [hp]
  convert SendOutcome.enqueue hacc hflags tail htail' r using 1
  simp only [Machine.modify, Machine.mk.injEq, and_true]
  funext p
  by_cases hp : p = s
  · subst hp; simp [enqueue]
  · simp [enqueue, hp]

/-- Every call of `msg_send` that returns. -/
theorem msgSend_outcome {k k' : Machine} {s : Pid} {dest : ℤ} {m : Addr}
    (h : msgSend k s dest m = .ok k') :
    ∃ d, dest = proc2pid d ∧ s ≠ d ∧
      deadlock k.procTable (proc2pid s) (proc2pid d) = .ok false ∧ SendOutcome k s d m k' := by
  simp only [msgSend, bind_eq_ok, assert_eq_ok, exists_const] at h
  obtain ⟨hne, r, hdead, h⟩ := h
  cases r with
  | true => simp at h
  | false =>
    simp only [Bool.false_eq_true, if_false, bind_eq_ok] at h
    obtain ⟨d, hd, h⟩ := h
    obtain rfl := slot_eq_ok.mp hd
    have hsd : s ≠ d := fun h => hne (by rw [h])
    refine ⟨d, rfl, hsd, hdead, ?_⟩
    split_ifs at h with hacc
    · exact msgSendDeliver_outcome hsd hacc h
    · exact msgSendBlock_outcome hacc h

/-! ## `msg_receive` -/

/-- What the checks of `msg_receive` establish when it takes the message of
    `f`. -/
structure Found (t : ProcTable) (w f : Pid) : Prop where
  flags : (t w).pFlags = 0
  msg : (t w).msg = 0
  recvfrom : (t w).pRecvfrom = NO_TASK
  sendto : (t w).pSendto = NO_TASK
  queue : (t w).qSending ≠ none
  fromFlags : (t f).pFlags = SENDING
  fromMsg : (t f).msg ≠ 0
  fromRecvfrom : (t f).pRecvfrom = NO_TASK
  fromSendto : (t f).pSendto = proc2pid w

theorem Found.sendsTo {t : ProcTable} {w f : Pid} (h : Found t w f) : SendsTo t f w := by
  refine ⟨?_, h.fromSendto⟩
  rw [Sending, h.fromFlags]
  decide

theorem msgReceiveChecks_eq_ok {t : ProcTable} {w f : Pid} {u : Unit} :
    msgReceiveChecks t w f = .ok u ↔ Found t w f := by
  simp only [msgReceiveChecks, bind_eq_ok, assert_eq_ok, exists_const]
  constructor
  · rintro ⟨h1, h2, h3, h4, h5, h6, h7, h8, h9⟩
    exact ⟨h1, h2, h3, h4, h5, h6, h7, h8, h9⟩
  · rintro ⟨h1, h2, h3, h4, h5, h6, h7, h8, h9⟩
    exact ⟨h1, h2, h3, h4, h5, h6, h7, h8, h9⟩

/-- `f` is the head of the queue of `w`, or the search for it stopped behind
    `prev`. -/
def FindsPrev (t : ProcTable) (w f : Pid) (prev : Option Pid) : Prop :=
  (prev = none ∧ (t w).qSending = some f) ∨
    (prev ≠ none ∧ (t w).qSending ≠ some f ∧
      searchSending t (proc2pid f) f 36 none (t w).qSending = .ok prev)

/-- The effects of a call `msg_receive(w, src, m)` that returns. -/
inductive ReceiveOutcome (k : Machine) (w : Pid) (src : ℤ) (m : Addr) : Machine → Prop
  | interrupt (hint : (k.procTable w).hasIntMsg ≠ 0) (hsrc : src = ANY ∨ src = INTERRUPT) :
      ReceiveOutcome k w src m
        { k with
          procTable := clearInt k.procTable w
          mem := writeInterrupt k.mem (linear k.procTable w m) }
  | take (f : Pid) (prev : Option Pid)
      (hsrc : (src = ANY ∧ (k.procTable w).qSending = some f) ∨ src = proc2pid f)
      (hfound : Found k.procTable w f) (hprev : FindsPrev k.procTable w f prev) :
      ReceiveOutcome k w src m
        { k with
          procTable := dequeue k.procTable w f prev
          mem := pAsmMemcpy k.mem (linear k.procTable w m)
            (linear k.procTable f (k.procTable f).msg) sizeofMessage }
  | wait (hsrc : (src = ANY ∧ (k.procTable w).qSending = none) ∨
        ∃ f, src = proc2pid f ∧ ¬ SendsTo k.procTable f w)
      (hflags : (k.procTable w).pFlags ||| RECEIVING = RECEIVING) (r : Pid) :
      ReceiveOutcome k w src m { k with procTable := park k.procTable w src m, readyProcess := r }

/-- What the first half of `msg_receive` can select. -/
theorem msgReceiveSelect_cases {t : ProcTable} {w : Pid} {src : ℤ} {sel : Selection}
    (h : msgReceiveSelect t w src = .ok sel) :
    (∃ f, src = ANY ∧ (t w).qSending = some f ∧ Found t w f ∧ sel = .take f none) ∨
    (∃ f prev, src = proc2pid f ∧ Found t w f ∧
      searchSending t (proc2pid f) f 36 none (t w).qSending = .ok prev ∧ sel = .take f prev) ∨
    (src = ANY ∧ (t w).qSending = none ∧ sel = .wait src) ∨
    (∃ f, src = proc2pid f ∧ ¬ SendsTo t f w ∧ sel = .wait src) := by
  unfold msgReceiveSelect at h
  split_ifs at h with hany
  · cases hq : (t w).qSending with
    | none =>
      simp only [hq, Except.ok.injEq] at h
      exact .inr (.inr (.inl ⟨hany, rfl, by rw [← h, hany]⟩))
    | some f =>
      simp only [hq, bind_eq_ok, msgReceiveChecks_eq_ok, exists_const, Except.ok.injEq] at h
      exact .inl ⟨f, hany, rfl, h.1, h.2.symm⟩
  · simp only [bind_eq_ok] at h
    obtain ⟨f, hf, h⟩ := h
    obtain rfl := slot_eq_ok.mp hf
    split_ifs at h with hs
    · simp only [bind_eq_ok, assert_eq_ok, msgReceiveChecks_eq_ok, exists_const,
        Except.ok.injEq] at h
      obtain ⟨_, prev, hsearch, hfound, h⟩ := h
      exact .inr (.inl ⟨f, prev, rfl, hfound, hsearch, h.symm⟩)
    · simp only [Except.ok.injEq] at h
      exact .inr (.inr (.inr ⟨f, rfl, hs, h.symm⟩))

/-- The links after `f` has been removed from the queue of `w`. -/
theorem unlinkSending_eq_ok {k k' : Machine} {w f : Pid} {prev : Option Pid}
    (h : unlinkSending k w f prev = .ok k') :
    ((prev = none ∧ (k.procTable w).qSending = some f) ∨
      (prev ≠ none ∧ (k.procTable w).qSending ≠ some f)) ∧
    k' = { k with procTable := fun p =>
      { k.procTable p with
        qSending :=
          if p = w ∧ prev = none then (k.procTable f).nextSending else (k.procTable p).qSending
        nextSending :=
          if p = f then none
          else if prev = some p then (k.procTable f).nextSending
          else (k.procTable p).nextSending } } := by
  unfold unlinkSending at h
  split_ifs at h with hhead
  · simp only [bind_eq_ok, assert_eq_ok, exists_const, Except.ok.injEq] at h
    obtain ⟨rfl, rfl⟩ := h
    refine ⟨.inl ⟨rfl, hhead.symm⟩, ?_⟩
    simp only [Machine.modify, Machine.mk.injEq, and_true]
    funext p
    by_cases hp : p = f
    · subst hp
      by_cases hpw : p = w
      · subst hpw; simp
      · simp [hpw]
    · by_cases hpw : p = w
      · subst hpw; simp [hp]
      · simp [hp, hpw]
  · cases prev with
    | none => simp at h
    | some q =>
      simp only [Except.ok.injEq] at h
      refine ⟨.inr ⟨by simp, fun hc => hhead hc.symm⟩, ?_⟩
      rw [← h]
      simp only [Machine.modify, Machine.mk.injEq, and_true]
      funext p
      by_cases hp : p = f
      · subst hp
        by_cases hpq : p = q
        · subst hpq; simp
        · simp [hpq]
      · by_cases hpq : p = q
        · subst hpq; simp [hp]
        · simp [hp, hpq, Ne.symm hpq]

theorem msgReceiveTake_outcome {k k' : Machine} {w f : Pid} {prev : Option Pid} {src : ℤ}
    {m : Addr} (hsrc : (src = ANY ∧ (k.procTable w).qSending = some f) ∨ src = proc2pid f)
    (hfound : Found k.procTable w f)
    (hprev : prev ≠ none → searchSending k.procTable (proc2pid f) f 36 none
      (k.procTable w).qSending = .ok prev)
    (h : msgReceiveTake k w f prev m = .ok k') : ReceiveOutcome k w src m k' := by
  simp only [msgReceiveTake, unblock, bind_eq_ok, assert_eq_ok, exists_const, Except.ok.injEq] at h
  obtain ⟨k1, hunlink, _, _, la, hla, ls, hls, _, rfl⟩ := h
  obtain ⟨hq, rfl⟩ := unlinkSending_eq_ok hunlink
  obtain rfl := va2la_eq_ok hla
  obtain rfl := va2la_eq_ok hls
  have hp : FindsPrev k.procTable w f prev := by
    rcases hq with hq | ⟨h1, h2⟩
    · exact .inl hq
    · exact .inr ⟨h1, h2, hprev h1⟩
  convert ReceiveOutcome.take f prev hsrc hfound hp using 1
  simp only [Machine.modify, Function.update_self, Function.update_idem, Machine.mk.injEq, true_and,
    and_true]
  refine ⟨?_, rfl⟩
  funext p
  by_cases hpf : p = f
  · subst hpf; simp [dequeue]
  · simp [dequeue, hpf]

theorem msgReceiveBlock_outcome {k k' : Machine} {w : Pid} {src : ℤ} {m : Addr}
    (hsrc : (src = ANY ∧ (k.procTable w).qSending = none) ∨
      ∃ f, src = proc2pid f ∧ ¬ SendsTo k.procTable f w)
    (h : msgReceiveBlock k w src m = .ok k') : ReceiveOutcome k w src m k' := by
  simp only [msgReceiveBlock, bind_eq_ok, assert_eq_ok, exists_const, Except.ok.injEq] at h
  obtain ⟨k2, hblock, hflags, _, _, _, _, rfl⟩ := h
  obtain ⟨r, rfl⟩ := block_eq_ok hblock
  simp only [Machine.modify_procTable, Function.update_self] at hflags
  convert ReceiveOutcome.wait hsrc hflags r using 1
  simp only [Machine.modify, Function.update_self, Function.update_idem, Machine.mk.injEq, and_true]
  funext p
  by_cases hp : p = w
  · subst hp; simp [park]
  · simp [park, hp]

theorem msgReceiveInterrupt_outcome {k k' : Machine} {w : Pid} {src : ℤ} {m : Addr}
    (hint : (k.procTable w).hasIntMsg ≠ 0) (hsrc : src = ANY ∨ src = INTERRUPT)
    (h : msgReceiveInterrupt k w m = .ok k') : ReceiveOutcome k w src m k' := by
  simp only [msgReceiveInterrupt, bind_eq_ok, assert_eq_ok, exists_const, Except.ok.injEq] at h
  obtain ⟨_, la, hla, _, _, _, _, rfl⟩ := h
  obtain rfl := va2la_eq_ok hla
  convert ReceiveOutcome.interrupt hint hsrc using 1
  simp only [Machine.modify, Machine.mk.injEq, and_true]
  funext p
  by_cases hp : p = w
  · subst hp; simp [clearInt]
  · simp [clearInt, hp]

/-- Every call of `msg_receive` that returns. -/
theorem msgReceive_outcome {k k' : Machine} {w : Pid} {src : ℤ} {m : Addr}
    (h : msgReceive k w src m = .ok k') :
    proc2pid w ≠ src ∧ ReceiveOutcome k w src m k' := by
  simp only [msgReceive, bind_eq_ok, assert_eq_ok, exists_const] at h
  obtain ⟨hne, h⟩ := h
  refine ⟨hne, ?_⟩
  split_ifs at h with hint
  · exact msgReceiveInterrupt_outcome hint.1 hint.2 h
  · simp only [bind_eq_ok] at h
    obtain ⟨sel, hsel, h⟩ := h
    rcases msgReceiveSelect_cases hsel with ⟨f, hsrc, hq, hfound, rfl⟩ |
      ⟨f, prev, hsrc, hfound, hsearch, rfl⟩ | ⟨hsrc, hq, rfl⟩ | ⟨f, hsrc, hns, rfl⟩
    · exact msgReceiveTake_outcome (.inl ⟨hsrc, hq⟩) hfound (fun hc => absurd rfl hc) h
    · exact msgReceiveTake_outcome (.inr hsrc) hfound (fun _ => hsearch) h
    · exact msgReceiveBlock_outcome (.inl ⟨hsrc, hq⟩) h
    · exact msgReceiveBlock_outcome (.inr ⟨f, hsrc, hns⟩) h

/-! ## `sys_sendrec` -/

/-- The machine after `sys_sendrec` has stored the caller's number in the
    message. -/
def stampSource (k : Machine) (p : Pid) (m : Addr) : Machine :=
  { k with
    mem := writeWord k.mem (linear k.procTable p m + offSource) (BitVec.ofInt 32 (proc2pid p)) }

/-- Every system call that returns. -/
theorem sysSendrec_outcome {k k' : Machine} {p : Pid} {function srcDest : ℤ} {m : Addr}
    (h : sysSendrec k function srcDest m p = .ok k') :
    (∃ d, function = SEND ∧ srcDest = proc2pid d ∧ p ≠ d ∧
      deadlock k.procTable (proc2pid p) (proc2pid d) = .ok false ∧
      SendOutcome (stampSource k p m) p d m k') ∨
    (function = RECEIVE ∧ proc2pid p ≠ srcDest ∧
      ReceiveOutcome (stampSource k p m) p srcDest m k') := by
  simp only [sysSendrec, bind_eq_ok, assert_eq_ok, exists_const] at h
  obtain ⟨_, _, la, hla, _, h⟩ := h
  obtain rfl := va2la_eq_ok hla
  split_ifs at h with hsend hrecv
  · obtain ⟨d, hd, hpd, hdead, hout⟩ := msgSend_outcome h
    exact .inl ⟨d, hsend, hd, hpd, hdead, hout⟩
  · obtain ⟨hne, hout⟩ := msgReceive_outcome h
    exact .inr ⟨hrecv, hne, hout⟩

/-- What a system call `SEND` of `s` to `d` does to the table and to memory. -/
inductive SendEffect (k : Machine) (s d : Pid) (m : Addr) (k' : Machine) : Prop
  | delivered (haccepts : Accepts k.procTable d s)
      (hflags : (k.procTable d).pFlags &&& ~~~RECEIVING = 0)
      (htable : k'.procTable = deliver k.procTable d)
      (hmem : k'.mem = pAsmMemcpy (stampSource k s m).mem
        (linear k.procTable d (k.procTable d).msg) (linear k.procTable s m) sizeofMessage)
  | queued (haccepts : ¬ Accepts k.procTable d s) (tail : Option Pid)
      (htail : FindsTail k.procTable d tail)
      (htable : k'.procTable = enqueue k.procTable s d m tail)
      (hmem : k'.mem = (stampSource k s m).mem)

/-- What a system call `RECEIVE` of `w` from `src` does to the table and to
    memory. -/
inductive ReceiveEffect (k : Machine) (w : Pid) (src : ℤ) (m : Addr) (k' : Machine) : Prop
  | taken (f : Pid) (prev : Option Pid)
      (hsrc : (src = ANY ∧ (k.procTable w).qSending = some f) ∨ src = proc2pid f)
      (hfound : Found k.procTable w f) (hprev : FindsPrev k.procTable w f prev)
      (htable : k'.procTable = dequeue k.procTable w f prev)
      (hmem : k'.mem = pAsmMemcpy (stampSource k w m).mem (linear k.procTable w m)
        (linear k.procTable f (k.procTable f).msg) sizeofMessage)
  | parked (hsrc : (src = ANY ∧ (k.procTable w).qSending = none) ∨
        ∃ f, src = proc2pid f ∧ ¬ SendsTo k.procTable f w)
      (htable : k'.procTable = park k.procTable w src m)
      (hmem : k'.mem = (stampSource k w m).mem)

theorem SendOutcome.effect {k k' : Machine} {s d : Pid} {m : Addr}
    (h : SendOutcome (stampSource k s m) s d m k') : SendEffect k s d m k' := by
  cases h with
  | deliver hacc _ hflags _ => exact .delivered hacc hflags rfl rfl
  | enqueue hacc _ tail htail _ => exact .queued hacc tail htail rfl rfl

theorem ReceiveOutcome.effect {k k' : Machine} {w : Pid} {src : ℤ} {m : Addr}
    (h : ReceiveOutcome (stampSource k w m) w src m k') (hint : (k.procTable w).hasIntMsg = 0) :
    ReceiveEffect k w src m k' := by
  cases h with
  | interrupt hc _ => exact absurd hint hc
  | take f prev hsrc hfound hprev => exact .taken f prev hsrc hfound hprev rfl rfl
  | wait hsrc _ _ => exact .parked hsrc rfl rfl

/-- What a system call `RECEIVE` of `w` from the process `f` does. -/
inductive ReceiveFrom (k : Machine) (w f : Pid) (m : Addr) (k' : Machine) : Prop
  | taken (prev : Option Pid) (hfound : Found k.procTable w f)
      (hprev : FindsPrev k.procTable w f prev)
      (htable : k'.procTable = dequeue k.procTable w f prev)
      (hmem : k'.mem = pAsmMemcpy (stampSource k w m).mem (linear k.procTable w m)
        (linear k.procTable f (k.procTable f).msg) sizeofMessage)
  | parked (hno : ¬ SendsTo k.procTable f w)
      (htable : k'.procTable = park k.procTable w (proc2pid f) m)
      (hmem : k'.mem = (stampSource k w m).mem)

theorem ReceiveEffect.from_proc {k k' : Machine} {w f : Pid} {m : Addr}
    (h : ReceiveEffect k w (proc2pid f) m k') : ReceiveFrom k w f m k' := by
  cases h with
  | taken f' prev hsrc hfound hprev htable hmem =>
    rcases hsrc with ⟨hany, _⟩ | hf
    · exact absurd hany (proc2pid_ne_any f)
    · obtain rfl := proc2pid_inj.mp hf
      exact .taken prev hfound hprev htable hmem
  | parked hsrc htable hmem =>
    rcases hsrc with ⟨hany, _⟩ | ⟨f', hf, hno⟩
    · exact absurd hany (proc2pid_ne_any f)
    · obtain rfl := proc2pid_inj.mp hf
      exact .parked hno htable hmem

theorem sysSendrec_send {k k' : Machine} {s d : Pid} {m : Addr}
    (h : sysSendrec k SEND (proc2pid d) m s = .ok k') : SendEffect k s d m k' := by
  rcases sysSendrec_outcome h with ⟨d', _, hd, _, _, hout⟩ | ⟨hf, _⟩
  · obtain rfl := proc2pid_inj.mp hd
    exact hout.effect
  · exact absurd hf (by decide)

theorem sysSendrec_receive {k k' : Machine} {w : Pid} {src : ℤ} {m : Addr}
    (hint : (k.procTable w).hasIntMsg = 0) (h : sysSendrec k RECEIVE src m w = .ok k') :
    ReceiveEffect k w src m k' := by
  rcases sysSendrec_outcome h with ⟨_, hf, _⟩ | ⟨_, _, hout⟩
  · exact absurd hf (by decide)
  · exact hout.effect hint

/-- No call moves a segment. -/
theorem SendEffect.linear_eq {k k' : Machine} {s d : Pid} {m : Addr} (h : SendEffect k s d m k')
    (p : Pid) (va : Addr) : linear k'.procTable p va = linear k.procTable p va := by
  cases h with
  | delivered _ _ htable _ => rw [htable]; rfl
  | queued _ _ _ htable _ => rw [htable]; rfl

theorem ReceiveEffect.linear_eq {k k' : Machine} {w : Pid} {src : ℤ} {m : Addr}
    (h : ReceiveEffect k w src m k') (p : Pid) (va : Addr) :
    linear k'.procTable p va = linear k.procTable p va := by
  cases h with
  | taken _ _ _ _ _ htable _ => rw [htable]; rfl
  | parked _ htable _ => rw [htable]; rfl

end SimpleOs
