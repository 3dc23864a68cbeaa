import SimpleOs.Lib.RoundRobin
import SimpleOs.Kernel.Invariant

/-!
# Every call returns, panics or finds nobody to run

`IpcInv` is strong enough for every assertion of the IPC path. A call by a
ready process returns, except that `msg_send` panics when the sends lead from
the receiver back to the sender, and that the scheduler never ends when the
call has blocked the last ready process.

* `scheduleLoop_cases`: the scheduler finds a ready process if there is one.
* `msgSend_spec`, `msgReceive_spec`: the two primitives.
* `sysSendrec_send_spec`, `sysSendrec_receive_spec`: the system call.
-/

namespace SimpleOs

open ByteMem RoundRobin

/-! ## The scheduler -/

/-- The loop looks at the next `fuel` slots in turn, and stops at the first that
    is ready. -/
theorem scheduleLoop_spec (t : ProcTable) : ∀ (fuel : ℕ) (r : Pid),
    (∃ i < fuel, scheduleLoop t fuel r = .ok (place r i) ∧ (t (place r i)).pFlags = 0 ∧
      ∀ j < i, (t (place r j)).pFlags ≠ 0) ∨
    (scheduleLoop t fuel r = .error .spin ∧ ∀ i < fuel, (t (place r i)).pFlags ≠ 0) := by
  intro fuel
  induction fuel with
  | zero => intro r; exact .inr ⟨rfl, fun i hi => absurd hi (Nat.not_lt_zero i)⟩
  | succ fuel ih =>
    intro r
    rw [scheduleLoop]
    by_cases h0 : (t (r + 1)).pFlags = 0
    · refine .inl ⟨0, Nat.succ_pos fuel, ?_, ?_, fun j hj => absurd hj (Nat.not_lt_zero j)⟩
      · simp [h0, place_zero]
      · rw [place_zero]
        exact h0
    · simp only [h0, if_false, ite_self]
      have hfirst : ∀ n, (∀ j < n, (t (place (r + 1) j)).pFlags ≠ 0) →
          ∀ j < n + 1, (t (place r j)).pFlags ≠ 0 := by
        intro n hn j hj
        cases j with
        | zero =>
          rw [place_zero]
          exact h0
        | succ j =>
          rw [place_succ]
          exact hn j (by omega)
      rcases ih (r + 1) with ⟨i, hi, hok, hready, hbefore⟩ | ⟨h, hall⟩
      · rw [← place_succ] at hok hready
        exact .inl ⟨i + 1, by omega, hok, hready, hfirst i hbefore⟩
      · exact .inr ⟨h, hfirst fuel hall⟩

/-- `schedule` ends exactly when some process is ready. -/
theorem scheduleLoop_cases (t : ProcTable) (r : Pid) :
    (∃ p, scheduleLoop t 35 r = .ok p ∧ IsNext (fun q => (t q).pFlags = 0) r p) ∨
    (scheduleLoop t 35 r = .error .spin ∧ ∀ p, (t p).pFlags ≠ 0) := by
  rcases scheduleLoop_spec t 35 r with ⟨i, hi, hok, hready, hbefore⟩ | ⟨h, hall⟩
  · exact .inl ⟨place r i, hok, i, hi, rfl, hready, hbefore⟩
  · refine .inr ⟨h, fun p => ?_⟩
    obtain ⟨i, hi, rfl⟩ := exists_place r p
    exact hall i hi

theorem block_cases {k : Machine} {p : Pid} (hp : (k.procTable p).pFlags ≠ 0) :
    (∃ r, block k p = .ok { k with readyProcess := r }) ∨
    (block k p = .error .spin ∧ ∀ q, (k.procTable q).pFlags ≠ 0) := by
  rw [block, assert_bind hp, schedule]
  rcases scheduleLoop_cases k.procTable k.readyProcess with ⟨r, h, _⟩ | ⟨h, hall⟩
  · exact .inl ⟨r, by rw [h]; rfl⟩
  · exact .inr ⟨by rw [h]; rfl, hall⟩

/-- `va2la` succeeds for every process. -/
theorem va2la_ok {k : Machine} (hflat : NativeFlat k.procTable) (p : Pid) (va : Addr) :
    va2la k (proc2pid p) va = .ok (linear k.procTable p va) := by
  simp only [va2la, slot_proc2pid, bind, Except.bind]
  split_ifs with h
  · have hla : linear k.procTable p va = va := by
      rw [linear, hflat p h]
      exact BitVec.zero_add va
    simp [assert, hla]
  · rfl

/-! ## `msg_send` -/

theorem msgSendDeliver_ok {k : Machine} {s d : Pid} {m : Addr} (hflat : NativeFlat k.procTable)
    (hr : (k.procTable s).Ready) (hd : (k.procTable d).InReceive) (hsd : s ≠ d) (hm : m ≠ 0) :
    ∃ k', msgSendDeliver k s d m = .ok k' := by
  simp only [msgSendDeliver, unblock, va2la_ok hflat, bind_eq_ok, assert_eq_ok, exists_const,
    Machine.modify_procTable, Function.update_self, Function.update_idem,
    Function.update_of_ne hsd, Except.ok.injEq, exists_eq_left', exists_and_left, exists_eq']
  exact ⟨hd.msg, hm, by simp [hd.flags], by simp [hd.flags], trivial, trivial, hd.sendto, hr.flags,
    hr.msg, hr.recvfrom, hr.sendto, trivial⟩

/-- Every queue has an end. -/
theorem QueueInv.findsTail {t : ProcTable} (hq : QueueInv t) (d : Pid) :
    ∃ tail, FindsTail t d tail := by
  obtain ⟨l, hl⟩ := hq.queue d
  unfold FindsTail
  cases hc : (t d).qSending with
  | none => exact ⟨none, rfl⟩
  | some p =>
    obtain ⟨q, hlast, _⟩ := lastSending_linked (hc ▸ hl.linked) hl.length_le
    exact ⟨some q, q, hlast, rfl⟩

/-- The queue is looked at after the sender's own fields have been set, which
    leaves all links as they were. -/
theorem appendSending_ok {k : Machine} {t : ProcTable} {s d : Pid}
    (htail : ∃ tail, FindsTail t d tail)
    (hhead : ∀ p, (k.procTable p).qSending = (t p).qSending)
    (hnext : ∀ p, (k.procTable p).nextSending = (t p).nextSending) :
    ∃ k', appendSending k s d = .ok k' := by
  obtain ⟨tail, htail⟩ := htail
  unfold FindsTail at htail
  unfold appendSending
  cases hc : (t d).qSending with
  | none => exact ⟨_, by rw [hhead, hc]⟩
  | some p =>
    rw [hc] at htail
    obtain ⟨q, hlast, _⟩ := htail
    refine ⟨k.modify q fun p => { p with nextSending := some s }, ?_⟩
    rw [hhead, hc]
    simp only [lastSending_congr hnext, hlast, bind, Except.bind]

/-- No process but `p` is ready. -/
def NobodyElse (t : ProcTable) (p : Pid) : Prop := ∀ q ≠ p, (t q).pFlags ≠ 0

theorem msgSendBlock_cases {k : Machine} {s d : Pid} {m : Addr} (hr : (k.procTable s).Ready)
    (htail : ∃ tail, FindsTail k.procTable d tail) (hm : m ≠ 0) :
    (∃ k', msgSendBlock k s d (proc2pid d) m = .ok k') ∨
    (msgSendBlock k s d (proc2pid d) m = .error .spin ∧ NobodyElse k.procTable s) := by
  set k₁ := ((k.modify s fun p => { p with pFlags := p.pFlags ||| SENDING }).modify s
    fun p => { p with pSendto := proc2pid d }).modify s fun p => { p with msg := m } with hk₁
  obtain ⟨k₂, hk₂⟩ : ∃ k', appendSending k₁ s d = .ok k' := by
    refine appendSending_ok htail (fun p => ?_) fun p => ?_
    · by_cases hp : p = s
      · subst hp; simp [hk₁]
      · simp [hk₁, hp]
    · by_cases hp : p = s
      · subst hp; simp [hk₁]
      · simp [hk₁, hp]
  obtain ⟨tail, _, hk₂'⟩ := appendSending_eq_ok hk₂
  set k₃ := k₂.modify s fun p => { p with nextSending := none } with hk₃
  have hflags : ∀ p, (k₃.procTable p).pFlags =
      if p = s then SENDING else (k.procTable p).pFlags := by
    intro p
    by_cases hp : p = s
    · subst hp; simp [hk₃, hk₂', hk₁, hr.flags]
    · simp [hk₃, hk₂', hk₁, hp]
  have hrun : msgSendBlock k s d (proc2pid d) m = (do
      let k ← block k₃ s
      assert "sender->p_flags == SENDING" ((k.procTable s).pFlags = SENDING)
      assert "sender->msg != 0" ((k.procTable s).msg ≠ 0)
      assert "sender->p_recvfrom == NO_TASK" ((k.procTable s).pRecvfrom = NO_TASK)
      assert "sender->p_sendto == dest" ((k.procTable s).pSendto = proc2pid d)
      .ok k) := by
    rw [msgSendBlock, assert_bind (by simp [hr.flags])]
    simp only [← hk₁, hk₂, bind, Except.bind]
    rfl
  rw [hrun]
  rcases block_cases (k := k₃) (p := s) (by rw [hflags, if_pos rfl]; decide) with ⟨r, h⟩ | ⟨h, hall⟩
  · refine .inl ⟨{ k₃ with readyProcess := r }, ?_⟩
    have h1 : (k₃.procTable s).msg ≠ 0 := by simpa [hk₃, hk₂', hk₁] using hm
    have h2 : (k₃.procTable s).pRecvfrom = NO_TASK := by simpa [hk₃, hk₂', hk₁] using hr.recvfrom
    have h3 : (k₃.procTable s).pSendto = proc2pid d := by simp [hk₃, hk₂', hk₁]
    have h4 : (k₃.procTable s).pFlags = SENDING := by rw [hflags, if_pos rfl]
    simp only [h, bind_eq_ok, Except.ok.injEq, exists_eq_left', assert_eq_ok, exists_const]
    exact ⟨h4, h1, h2, h3, trivial⟩
  · refine .inr ⟨by rw [h]; rfl, fun q hq => ?_⟩
    have := hall q
    rwa [hflags, if_neg hq] at this

/-- A send by a ready process. -/
theorem msgSend_spec {k : Machine} {s d : Pid} {m : Addr} (hI : IpcInv k.procTable)
    (hs : (k.procTable s).pFlags = 0) (hsd : s ≠ d) (hm : m ≠ 0) :
    (∃ k', msgSend k s (proc2pid d) m = .ok k') ∨
    (msgSend k s (proc2pid d) m = .error (.panic "") ∧
      Relation.TransGen (SendsTo k.procTable) d s) ∨
    (msgSend k s (proc2pid d) m = .error .spin ∧ ¬ Accepts k.procTable d s ∧
      NobodyElse k.procTable s) := by
  have hr := (hI.shape s).ready hs
  obtain ⟨b, hb, _⟩ := deadlock_returns hI.queues.target hI.msg_ne hI.acyclic s d
  have hne : proc2pid s ≠ proc2pid d := fun hc => hsd (proc2pid_inj.mp hc)
  rw [msgSend, assert_bind hne, hb]
  cases b with
  | true =>
    exact .inr (.inl ⟨rfl, (deadlock_eq_true hI.queues.target hI.msg_ne hI.acyclic s d).mp hb⟩)
  | false =>
    simp only [slot_proc2pid, bind, Except.bind, Bool.false_eq_true, if_false]
    split_ifs with hacc
    · exact .inl (msgSendDeliver_ok hI.flat hr ((hI.shape d).inReceive hacc.1) hsd hm)
    · rcases msgSendBlock_cases (d := d) hr (hI.queues.findsTail d) hm with h | h
      · exact .inl h
      · exact .inr (.inr ⟨h.1, hacc, h.2⟩)

/-! ## `msg_receive` -/

/-- A receive of `w` from `src` finds nobody. -/
def NoSender (t : ProcTable) (w : Pid) (src : ℤ) : Prop :=
  (src = ANY ∧ (t w).qSending = none) ∨ ∃ f, src = proc2pid f ∧ ¬ SendsTo t f w

/-- A waiting sender passes the checks of `msg_receive`. -/
theorem IpcInv.found {t : ProcTable} (hI : IpcInv t) {w f : Pid} (hw : (t w).pFlags = 0)
    (hf : SendsTo t f w) : Found t w f := by
  have hr := (hI.shape w).ready hw
  have hs := (hI.shape f).inSend hf.1
  obtain ⟨l, hl⟩ := hI.queues.queue w
  have hmem := (hl.mem_iff f).mpr hf
  refine ⟨hr.flags, hr.msg, hr.recvfrom, hr.sendto, fun hc => ?_, hs.flags, hs.msg, hs.recvfrom,
    hf.2⟩
  rw [hl.head_eq_none.mp hc] at hmem
  exact absurd hmem List.not_mem_nil

theorem msgReceiveSelect_ok {t : ProcTable} (hI : IpcInv t) {w : Pid} (hw : (t w).pFlags = 0)
    {src : ℤ} (hsrc : src = ANY ∨ ∃ f : Pid, src = proc2pid f) :
    (∃ f prev, msgReceiveSelect t w src = .ok (.take f prev) ∧ Found t w f ∧
      ((prev = none ∧ (t w).qSending = some f) ∨
        ∃ q, prev = some q ∧ (t w).qSending ≠ some f)) ∨
    (msgReceiveSelect t w src = .ok (.wait src) ∧ NoSender t w src) := by
  obtain ⟨l, hl⟩ := hI.queues.queue w
  unfold msgReceiveSelect
  rcases hsrc with rfl | ⟨f, rfl⟩
  · rw [if_pos rfl]
    cases hq : (t w).qSending with
    | none => exact .inr ⟨rfl, .inl ⟨rfl, hq⟩⟩
    | some f =>
      obtain ⟨l', rfl⟩ := hl.head_eq_some hq
      have hfound := hI.found hw ((hl.mem_iff f).mp List.mem_cons_self)
      refine .inl ⟨f, none, ?_, hfound, .inl ⟨rfl, rfl⟩⟩
      have hchecks : msgReceiveChecks t w f = .ok () := msgReceiveChecks_eq_ok.mpr hfound
      simp only [hchecks, bind, Except.bind]
  · rw [if_neg (proc2pid_ne_any f), slot_proc2pid]
    by_cases hs : SendsTo t f w
    · have hfound := hI.found hw hs
      have hchecks : msgReceiveChecks t w f = .ok () := msgReceiveChecks_eq_ok.mpr hfound
      obtain ⟨l₁, l₂, rfl, hl₁⟩ := List.eq_append_cons_of_mem ((hl.mem_iff f).mpr hs)
      have hlen : l₁.length < 36 := by
        have := hl.length_le
        simp only [List.length_append, List.length_cons] at this
        omega
      refine .inl ⟨f, l₁.getLast?, ?_, hfound, ?_⟩
      · simp only [bind, Except.bind]
        rw [if_pos (by exact hs)]
        simp only [assert, hfound.queue, ne_eq, not_false_eq_true, if_true,
          searchSending_linked hs.1 36 none _ hl.linked hl₁ hlen, Option.or_none, hchecks]
      · rcases List.eq_nil_or_concat l₁ with rfl | ⟨l₀, p, rfl⟩
        · exact .inl ⟨rfl, hl.linked.1⟩
        · refine .inr ⟨p, by simp, fun hc => hl₁ ?_⟩
          obtain ⟨l', hl'⟩ := hl.head_eq_some hc
          -- the head of the queue is in front of `f`
          cases l₀ with
          | nil => simp at hl'; simp [hl'.1]
          | cons a l₀ => simp at hl'; simp [hl'.1]
    · simp only [bind, Except.bind]
      rw [if_neg (by exact hs)]
      exact .inr ⟨rfl, .inr ⟨f, rfl, hs⟩⟩

theorem msgReceiveTake_ok {k : Machine} {w f : Pid} {prev : Option Pid} {m : Addr}
    (hnative : NativeFlat k.procTable) (hfound : Found k.procTable w f) (hm : m ≠ 0)
    (hprev : (prev = none ∧ (k.procTable w).qSending = some f) ∨
      ∃ q, prev = some q ∧ (k.procTable w).qSending ≠ some f) :
    ∃ k', msgReceiveTake k w f prev m = .ok k' := by
  obtain ⟨k₁, hk₁⟩ : ∃ k₁, unlinkSending k w f prev = .ok k₁ := by
    unfold unlinkSending
    rcases hprev with ⟨rfl, hq⟩ | ⟨q, rfl, hq⟩
    · rw [if_pos hq.symm, assert_bind rfl]
      exact ⟨_, rfl⟩
    · rw [if_neg fun hc => hq hc.symm]
      exact ⟨_, rfl⟩
  obtain ⟨-, hk₁'⟩ := unlinkSending_eq_ok hk₁
  have hflat : NativeFlat k₁.procTable := by rw [hk₁']; exact hnative
  have hmsg : (k₁.procTable f).msg ≠ 0 := by rw [hk₁']; exact hfound.fromMsg
  have hflags : (k₁.procTable f).pFlags = SENDING := by rw [hk₁']; exact hfound.fromFlags
  simp only [msgReceiveTake, unblock, hk₁, va2la_ok hflat, bind_eq_ok, Except.ok.injEq,
    exists_eq_left', assert_eq_ok, exists_const, Machine.modify_procTable, Function.update_self,
    Function.update_idem, exists_and_left, exists_eq', and_true]
  exact ⟨hm, hmsg, by simp [hflags]⟩

theorem msgReceiveBlock_cases {k : Machine} {w : Pid} {src : ℤ} {m : Addr}
    (hr : (k.procTable w).Ready) (hint : (k.procTable w).hasIntMsg = 0) (hm : m ≠ 0)
    (hsrc : src ≠ NO_TASK) :
    (∃ k', msgReceiveBlock k w src m = .ok k') ∨
    (msgReceiveBlock k w src m = .error .spin ∧ NobodyElse k.procTable w) := by
  set k₁ := ((k.modify w fun p => { p with pFlags := p.pFlags ||| RECEIVING }).modify w
    fun p => { p with msg := m }).modify w fun p => { p with pRecvfrom := src } with hk₁
  have hself : (k₁.procTable w).pFlags = RECEIVING := by simp [hk₁, hr.flags]
  have hother : ∀ p ≠ w, k₁.procTable p = k.procTable p := fun p hp => by simp [hk₁, hp]
  have hrun : msgReceiveBlock k w src m = (do
      let k ← block k₁ w
      assert "who_wanna_recv->p_flags == RECEIVING" ((k.procTable w).pFlags = RECEIVING)
      assert "who_wanna_recv->msg != 0" ((k.procTable w).msg ≠ 0)
      assert "who_wanna_recv->p_recvfrom != NO_TASK" ((k.procTable w).pRecvfrom ≠ NO_TASK)
      assert "who_wanna_recv->p_sendto == NO_TASK" ((k.procTable w).pSendto = NO_TASK)
      assert "who_wanna_recv->has_int_msg == 0" ((k.procTable w).hasIntMsg = 0)
      .ok k) := rfl
  rw [hrun]
  rcases block_cases (k := k₁) (p := w) (by rw [hself]; decide) with ⟨r, h⟩ | ⟨h, hall⟩
  · refine .inl ⟨{ k₁ with readyProcess := r }, ?_⟩
    simp only [h, bind_eq_ok, Except.ok.injEq, exists_eq_left', assert_eq_ok, exists_const,
      and_true]
    refine ⟨hself, ?_, ?_, ?_, ?_⟩
    · simpa [hk₁] using hm
    · simpa [hk₁] using hsrc
    · simpa [hk₁] using hr.sendto
    · simpa [hk₁] using hint
  · refine .inr ⟨by rw [h]; rfl, fun q hq => ?_⟩
    have := hall q
    rwa [hother q hq] at this

/-- A receive by a ready process. -/
theorem msgReceive_spec {k : Machine} {w : Pid} {src : ℤ} {m : Addr} (hI : IpcInv k.procTable)
    (hw : (k.procTable w).pFlags = 0) (hsrc : src = ANY ∨ ∃ f : Pid, f ≠ w ∧ src = proc2pid f)
    (hm : m ≠ 0) :
    (∃ k', msgReceive k w src m = .ok k') ∨
    (msgReceive k w src m = .error .spin ∧ NoSender k.procTable w src ∧
      NobodyElse k.procTable w) := by
  have hne : proc2pid w ≠ src := by
    rcases hsrc with rfl | ⟨f, hf, rfl⟩
    · exact proc2pid_ne_any w
    · exact fun hc => hf (proc2pid_inj.mp hc).symm
  have hval : src = ANY ∨ ∃ f : Pid, src = proc2pid f :=
    hsrc.imp_right fun ⟨f, _, h⟩ => ⟨f, h⟩
  have hnt : src ≠ NO_TASK := by
    rcases hval with rfl | ⟨f, rfl⟩
    · decide
    · exact proc2pid_ne_noTask f
  rw [msgReceive, assert_bind hne, if_neg fun hc => hc.1 (hI.noInt w)]
  rcases msgReceiveSelect_ok hI hw hval with ⟨f, prev, hsel, hfound, hprev⟩ | ⟨hsel, hnone⟩
  · rw [hsel]
    exact .inl (msgReceiveTake_ok hI.flat hfound hm hprev)
  · rw [hsel]
    rcases msgReceiveBlock_cases ((hI.shape w).ready hw) (hI.noInt w) hm hnt with h | h
    · exact .inl h
    · exact .inr ⟨h.1, hnone, h.2⟩

/-! ## `sys_sendrec` -/

/-- The calls that a process may make: a send to another process, or a receive
    from another process or from anybody. -/
def ValidCall (p : Pid) (function srcDest : ℤ) : Prop :=
  (function = SEND ∧ ∃ d : Pid, d ≠ p ∧ srcDest = proc2pid d) ∨
  (function = RECEIVE ∧ (srcDest = ANY ∨ ∃ f : Pid, f ≠ p ∧ srcDest = proc2pid f))

theorem toInt_ofInt_proc2pid (p : Pid) : (BitVec.ofInt 32 (proc2pid p)).toInt = proc2pid p := by
  have h0 := proc2pid_nonneg p
  have h1 := proc2pid_lt p
  rw [BitVec.toInt_ofInt]
  exact Int.bmod_eq_of_le (by omega) (by omega)

/-- Past its checks, `sys_sendrec` is one of the two primitives on the stamped
    machine. -/
theorem sysSendrec_eq {k : Machine} {p : Pid} {function srcDest : ℤ} {m : Addr}
    (hk : k.kReenter = 0) (hflat : NativeFlat k.procTable) (hcall : ValidCall p function srcDest) :
    sysSendrec k function srcDest m p =
      if function = SEND then msgSend (stampSource k p m) p srcDest m
      else msgReceive (stampSource k p m) p srcDest m := by
  have hval : (0 ≤ srcDest ∧ srcDest < NR_TASKS + NR_PROCS) ∨ srcDest = ANY ∨
      srcDest = INTERRUPT := by
    have hpid : ∀ q : Pid, 0 ≤ proc2pid q ∧ proc2pid q < NR_TASKS + NR_PROCS := by
      intro q
      refine ⟨proc2pid_nonneg q, ?_⟩
      exact proc2pid_lt q
    rcases hcall with ⟨_, d, _, rfl⟩ | ⟨_, rfl | ⟨f, _, rfl⟩⟩
    · exact .inl (hpid d)
    · exact .inr (.inl rfl)
    · exact .inl (hpid f)
  have hne : proc2pid p ≠ srcDest := by
    rcases hcall with ⟨_, d, hd, rfl⟩ | ⟨_, rfl | ⟨f, hf, rfl⟩⟩
    · exact fun hc => hd (proc2pid_inj.mp hc).symm
    · exact proc2pid_ne_any p
    · exact fun hc => hf (proc2pid_inj.mp hc).symm
  rw [sysSendrec, assert_bind hk, assert_bind hval]
  simp only [va2la_ok hflat, bind, Except.bind]
  rw [readWord_writeWord, toInt_ofInt_proc2pid]
  simp only [assert, hne, ne_eq, not_false_eq_true, if_true]
  rcases hcall with ⟨rfl, _⟩ | ⟨rfl, _⟩
  · rw [if_pos rfl, if_pos rfl]
    rfl
  · rw [if_neg (by decide), if_pos rfl, if_neg (by decide)]
    rfl

/-- A system call `SEND` of a ready process. -/
theorem sysSendrec_send_spec {k : Machine} {s d : Pid} {m : Addr} (hI : IpcInv k.procTable)
    (hk : k.kReenter = 0) (hs : (k.procTable s).pFlags = 0) (hsd : s ≠ d) (hm : m ≠ 0) :
    (∃ k', sysSendrec k SEND (proc2pid d) m s = .ok k') ∨
    (sysSendrec k SEND (proc2pid d) m s = .error (.panic "") ∧
      Relation.TransGen (SendsTo k.procTable) d s) ∨
    (sysSendrec k SEND (proc2pid d) m s = .error .spin ∧ ¬ Accepts k.procTable d s ∧
      NobodyElse k.procTable s) := by
  rw [sysSendrec_eq hk hI.flat (.inl ⟨rfl, d, hsd.symm, rfl⟩), if_pos rfl]
  exact msgSend_spec (k := stampSource k s m) hI hs hsd hm

/-- A system call `RECEIVE` of a ready process. -/
theorem sysSendrec_receive_spec {k : Machine} {w : Pid} {src : ℤ} {m : Addr}
    (hI : IpcInv k.procTable) (hk : k.kReenter = 0) (hw : (k.procTable w).pFlags = 0)
    (hsrc : src = ANY ∨ ∃ f : Pid, f ≠ w ∧ src = proc2pid f) (hm : m ≠ 0) :
    (∃ k', sysSendrec k RECEIVE src m w = .ok k') ∨
    (sysSendrec k RECEIVE src m w = .error .spin ∧ NoSender k.procTable w src ∧
      NobodyElse k.procTable w) := by
  rw [sysSendrec_eq hk hI.flat (.inr ⟨rfl, hsrc⟩), if_neg (by decide)]
  exact msgReceive_spec (k := stampSource k w m) hI hw hsrc hm

end SimpleOs
