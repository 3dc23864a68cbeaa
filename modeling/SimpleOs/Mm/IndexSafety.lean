import SimpleOs.Mm.Queues

/-!
# Index safety of `sys_sendrec`

The assertion of `sys_sendrec` admits the pseudo-numbers `ANY` and `INTERRUPT`
for both functions. Only `msg_receive` knows `ANY`, and it knows `INTERRUPT`
only while an interrupt is pending, which nothing in the system ever causes; in
every other case the number is used as an index of `proc_table`.

* `sysSendrec_inRange`: the calls that stay inside the table.
* `sysSendrec_badIndex`: the others leave it.
* `mmRun_index_safe_iff`: the two together, in every state of every run.
-/

namespace SimpleOs

open ByteMem Transition Pursuit

/-! ## Computations that stay inside the table -/

/-- No access of `x` is outside `proc_table`. -/
def InRange {α : Type} (x : Except Fault α) : Prop := ∀ i, x ≠ .error (.badIndex i)

section Rules

variable {α β : Type}

theorem inRange_ok (a : α) : InRange (.ok a : Except Fault α) := by
  intro i h
  cases h

theorem inRange_spin : InRange (.error .spin : Except Fault α) := by
  intro i h
  cases h

theorem inRange_panic (msg : String) : InRange (.error (.panic msg) : Except Fault α) := by
  intro i h
  cases h

theorem inRange_assertion (exp : String) :
    InRange (.error (.assertion exp) : Except Fault α) := by
  intro i h
  cases h

theorem inRange_assert (exp : String) (c : Prop) [Decidable c] : InRange (assert exp c) := by
  unfold assert
  split_ifs
  · exact inRange_ok ()
  · exact inRange_assertion exp

theorem InRange.bind {x : Except Fault α} {f : α → Except Fault β} (hx : InRange x)
    (hf : ∀ a, x = .ok a → InRange (f a)) : InRange (x >>= f) := by
  intro i h
  rcases bind_eq_error.mp h with h | ⟨a, ha, h⟩
  · exact hx i h
  · exact hf a ha i h

/-- A check in front of a computation. -/
theorem InRange.assert_bind {exp : String} {c : Prop} [Decidable c] {f : Unit → Except Fault β}
    (hf : c → InRange (f ())) : InRange (assert exp c >>= f) :=
  (inRange_assert exp c).bind fun _ h => hf (assert_eq_ok.mp h)

theorem inRange_slot (p : Pid) : InRange (slot (proc2pid p)) := by
  rw [slot_proc2pid]
  exact inRange_ok p

end Rules

theorem inRange_va2la (k : Machine) (p : Pid) (va : Addr) : InRange (va2la k (proc2pid p) va) := by
  refine (inRange_slot p).bind fun q _ => ?_
  split_ifs
  · exact .assert_bind fun _ => inRange_ok _
  · exact inRange_ok _

theorem inRange_scheduleLoop (t : ProcTable) : ∀ fuel r, InRange (scheduleLoop t fuel r) := by
  intro fuel
  induction fuel with
  | zero => intro r; exact inRange_spin
  | succ fuel ih =>
    intro r
    rw [scheduleLoop]
    split_ifs
    · exact ih _
    · exact inRange_ok _
    · exact ih _

theorem inRange_block (k : Machine) (p : Pid) : InRange (block k p) :=
  .assert_bind fun _ => (inRange_scheduleLoop _ _ _).bind fun _ _ => inRange_ok _

/-! ## `deadlock` -/

/-- The cycle is printed along processes that are sending. -/
theorem inRange_deadlockPrint (t : ProcTable) (src : Pid) :
    ∀ fuel p, chase (waitsFor t) src fuel p = some true →
      InRange (deadlockPrint t (proc2pid src) fuel p) := by
  intro fuel p h
  refine chase_induction (P := fun fuel p => InRange (deadlockPrint t (proc2pid src) fuel p))
    ?_ ?_ h
  · intro fuel p hw
    obtain ⟨_, hq⟩ := waitsFor_eq_some.mp hw
    rw [deadlockPrint]
    refine .assert_bind fun _ => ?_
    rw [hq, slot_proc2pid]
    simp only [Bind.bind, Except.bind, if_true]
    exact inRange_ok ()
  · intro fuel p q hw hne hrest
    obtain ⟨_, hq⟩ := waitsFor_eq_some.mp hw
    rw [deadlockPrint]
    refine .assert_bind fun _ => ?_
    rw [hq, slot_proc2pid]
    simp only [proc2pid_inj, Bind.bind, Except.bind, if_neg hne]
    exact hrest

theorem inRange_deadlock {t : ProcTable} (ht : TargetsValid t) (src dest : Pid) :
    InRange (deadlock t (proc2pid src) (proc2pid dest)) := by
  refine (inRange_slot dest).bind fun p hp => ?_
  obtain rfl : dest = p := proc2pid_inj.mp (slot_eq_ok.mp hp)
  rw [deadlockLoop_eq ht]
  cases hc : chase (waitsFor t) src 35 dest with
  | none => exact inRange_spin
  | some b =>
    cases b with
    | false => exact inRange_ok false
    | true =>
      refine (inRange_slot dest).bind fun p hp => ?_
      obtain rfl : dest = p := proc2pid_inj.mp (slot_eq_ok.mp hp)
      exact (inRange_deadlockPrint t src 35 dest hc).bind fun _ _ => inRange_ok true

/-! ## The primitives -/

theorem inRange_lastSending (t : ProcTable) : ∀ fuel p, InRange (lastSending t fuel p) := by
  intro fuel
  induction fuel with
  | zero => intro p; exact inRange_spin
  | succ fuel ih =>
    intro p
    rw [lastSending]
    cases (t p).nextSending with
    | none => exact inRange_ok p
    | some q => exact ih q

theorem inRange_appendSending (k : Machine) (s d : Pid) : InRange (appendSending k s d) := by
  unfold appendSending
  cases (k.procTable d).qSending with
  | none => exact inRange_ok _
  | some p => exact (inRange_lastSending _ _ _).bind fun _ _ => inRange_ok _

theorem inRange_msgSendDeliver (k : Machine) (s d : Pid) (m : Addr) :
    InRange (msgSendDeliver k s d m) := by
  refine .assert_bind fun _ => .assert_bind fun _ => ?_
  refine (inRange_va2la k d _).bind fun _ _ => (inRange_va2la k s m).bind fun _ _ => ?_
  refine .assert_bind fun _ => .assert_bind fun _ => .assert_bind fun _ => .assert_bind fun _ => ?_
  refine .assert_bind fun _ => .assert_bind fun _ => .assert_bind fun _ => .assert_bind fun _ => ?_
  exact .assert_bind fun _ => inRange_ok _

theorem inRange_msgSendBlock (k : Machine) (s d : Pid) (dest : ℤ) (m : Addr) :
    InRange (msgSendBlock k s d dest m) := by
  refine .assert_bind fun _ => ?_
  refine (inRange_appendSending _ s d).bind fun _ _ => (inRange_block _ s).bind fun _ _ => ?_
  refine .assert_bind fun _ => .assert_bind fun _ => .assert_bind fun _ => ?_
  exact .assert_bind fun _ => inRange_ok _

theorem inRange_msgSend {k : Machine} (ht : TargetsValid k.procTable) (s d : Pid) (m : Addr) :
    InRange (msgSend k s (proc2pid d) m) := by
  refine .assert_bind fun _ => (inRange_deadlock ht s d).bind fun b _ => ?_
  cases b with
  | true => exact inRange_panic ""
  | false =>
    simp only [Bool.false_eq_true, if_false]
    refine (inRange_slot d).bind fun p _ => ?_
    split_ifs
    · exact inRange_msgSendDeliver k s p m
    · exact inRange_msgSendBlock k s p (proc2pid d) m

theorem inRange_msgReceiveChecks (t : ProcTable) (w f : Pid) :
    InRange (msgReceiveChecks t w f) := by
  refine .assert_bind fun _ => .assert_bind fun _ => .assert_bind fun _ => .assert_bind fun _ => ?_
  refine .assert_bind fun _ => .assert_bind fun _ => .assert_bind fun _ => .assert_bind fun _ => ?_
  exact inRange_assert _ _

theorem inRange_searchSending (t : ProcTable) (src : ℤ) (f : Pid) :
    ∀ fuel prev cur, InRange (searchSending t src f fuel prev cur) := by
  intro fuel
  induction fuel with
  | zero => intro prev cur; exact inRange_spin
  | succ fuel ih =>
    intro prev cur
    cases cur with
    | none => exact inRange_ok prev
    | some p =>
      rw [searchSending]
      refine .assert_bind fun _ => ?_
      split_ifs
      · exact inRange_ok prev
      · exact ih _ _

theorem inRange_msgReceiveSelect (t : ProcTable) (w : Pid) {src : ℤ}
    (hsrc : src = ANY ∨ ∃ f : Pid, src = proc2pid f) : InRange (msgReceiveSelect t w src) := by
  unfold msgReceiveSelect
  rcases hsrc with rfl | ⟨f, rfl⟩
  · rw [if_pos rfl]
    cases (t w).qSending with
    | none => exact inRange_ok _
    | some f => exact (inRange_msgReceiveChecks t w f).bind fun _ _ => inRange_ok _
  · rw [if_neg (proc2pid_ne_any f)]
    refine (inRange_slot f).bind fun p _ => ?_
    split_ifs
    · refine .assert_bind fun _ => (inRange_searchSending _ _ _ _ _ _).bind fun _ _ => ?_
      exact (inRange_msgReceiveChecks t w p).bind fun _ _ => inRange_ok _
    · exact inRange_ok _

theorem inRange_unlinkSending (k : Machine) (w f : Pid) (prev : Option Pid) :
    InRange (unlinkSending k w f prev) := by
  unfold unlinkSending
  split_ifs
  · exact .assert_bind fun _ => inRange_ok _
  · cases prev with
    | none => exact inRange_assertion _
    | some p => exact inRange_ok _

theorem inRange_msgReceiveTake (k : Machine) (w f : Pid) (prev : Option Pid) (m : Addr) :
    InRange (msgReceiveTake k w f prev m) := by
  refine (inRange_unlinkSending k w f prev).bind fun k₁ _ => ?_
  refine .assert_bind fun _ => .assert_bind fun _ => ?_
  refine (inRange_va2la k₁ w m).bind fun _ _ => (inRange_va2la k₁ f _).bind fun _ _ => ?_
  exact .assert_bind fun _ => inRange_ok _

theorem inRange_msgReceiveBlock (k : Machine) (w : Pid) (r : ℤ) (m : Addr) :
    InRange (msgReceiveBlock k w r m) := by
  refine (inRange_block _ w).bind fun _ _ => ?_
  refine .assert_bind fun _ => .assert_bind fun _ => .assert_bind fun _ => ?_
  exact .assert_bind fun _ => .assert_bind fun _ => inRange_ok _

theorem inRange_msgReceiveInterrupt (k : Machine) (w : Pid) (m : Addr) :
    InRange (msgReceiveInterrupt k w m) := by
  refine .assert_bind fun _ => (inRange_va2la k w m).bind fun _ _ => ?_
  refine .assert_bind fun _ => .assert_bind fun _ => .assert_bind fun _ => ?_
  exact .assert_bind fun _ => inRange_ok _

theorem inRange_msgReceive (k : Machine) (w : Pid) {src : ℤ} (m : Addr)
    (hsrc : src = ANY ∨ ∃ f : Pid, src = proc2pid f) : InRange (msgReceive k w src m) := by
  refine .assert_bind fun _ => ?_
  split_ifs
  · exact inRange_msgReceiveInterrupt k w m
  · refine (inRange_msgReceiveSelect k.procTable w hsrc).bind fun sel _ => ?_
    cases sel with
    | take f prev => exact inRange_msgReceiveTake k w f prev m
    | wait r => exact inRange_msgReceiveBlock k w r m

/-! ## The system call -/

/-- The calls whose number is used as an index only where it is one. -/
def IndexOk (function srcDest : ℤ) : Prop :=
  (∃ q : Pid, srcDest = proc2pid q) ∨ (function = RECEIVE ∧ srcDest = ANY)

theorem sysSendrec_inRange {k : Machine} (ht : TargetsValid k.procTable)
    {function srcDest : ℤ} (h : IndexOk function srcDest) (m : Addr) (p : Pid) :
    InRange (sysSendrec k function srcDest m p) := by
  refine .assert_bind fun _ => .assert_bind fun _ => ?_
  refine (inRange_va2la k p m).bind fun _ _ => .assert_bind fun _ => ?_
  split_ifs with hsend hrecv
  · rcases h with ⟨d, rfl⟩ | ⟨hrecv, _⟩
    · refine inRange_msgSend ?_ p d m
      exact ht
    · rw [hsend] at hrecv
      exact absurd hrecv (by decide)
  · rcases h with ⟨f, rfl⟩ | ⟨_, rfl⟩
    · exact inRange_msgReceive _ p m (.inr ⟨f, rfl⟩)
    · exact inRange_msgReceive _ p m (.inl rfl)
  · exact inRange_panic _

theorem slot_any : slot ANY = .error (.badIndex ANY) := by decide

theorem slot_interrupt : slot INTERRUPT = .error (.badIndex INTERRUPT) := by decide

/-- The other calls index the table with the pseudo-number. -/
theorem sysSendrec_badIndex {k : Machine} {p : Pid} {function srcDest : ℤ} (m : Addr)
    (hk : k.kReenter = 0) (hflat : NativeFlat k.procTable)
    (hint : (k.procTable p).hasIntMsg = 0) (hf : function = SEND ∨ function = RECEIVE)
    (hsrc : srcDest = ANY ∨ srcDest = INTERRUPT) (hbad : ¬ IndexOk function srcDest) :
    sysSendrec k function srcDest m p = .error (.badIndex srcDest) := by
  have hslot : slot srcDest = .error (.badIndex srcDest) := by
    rcases hsrc with rfl | rfl
    · exact slot_any
    · exact slot_interrupt
  have hne : proc2pid p ≠ srcDest := by
    rcases hsrc with rfl | rfl
    · exact proc2pid_ne_any p
    · exact proc2pid_ne_interrupt p
  rw [sysSendrec, assert_bind hk, assert_bind (.inr hsrc)]
  simp only [va2la_ok hflat, Bind.bind, Except.bind]
  rw [readWord_writeWord, toInt_ofInt_proc2pid]
  simp only [assert, hne, ne_eq, not_false_eq_true, if_true]
  rcases hf with rfl | rfl
  · rw [if_pos rfl, msgSend, assert_bind hne]
    simp only [deadlock, hslot, Bind.bind, Except.bind]
  · have hany : srcDest ≠ ANY := fun hc => hbad (.inr ⟨rfl, hc⟩)
    rw [if_neg (by decide), if_pos rfl, msgReceive, assert_bind hne,
      if_neg fun hc => hc.1 hint]
    simp only [msgReceiveSelect, if_neg hany, hslot, Bind.bind, Except.bind]

/-! ## Whole runs -/

/-- What index safety rests on. None of it depends on the queues. -/
structure IndexInv (k : Machine) : Prop where
  targets : TargetsValid k.procTable
  flat : NativeFlat k.procTable
  noInt : ∀ p, (k.procTable p).hasIntMsg = 0
  kReenter : k.kReenter = 0

/-- A change after which the processes in a send are still in the same send. -/
theorem TargetsValid.mono {t t' : ProcTable} (ht : TargetsValid t)
    (h : ∀ p, Sending (t' p) → Sending (t p) ∧ (t' p).pSendto = (t p).pSendto) :
    TargetsValid t' := by
  intro p hp
  obtain ⟨hs, heq⟩ := h p hp
  rw [heq]
  exact ht p hs

theorem SameQueues.targetsValid {t t' : ProcTable} (h : SameQueues t t') (ht : TargetsValid t) :
    TargetsValid t' :=
  ht.mono fun p hp => ⟨(h.sending p).mp hp, h.sendto p ((h.sending p).mp hp)⟩

theorem SendOutcome.indexInv {k k' : Machine} {s d : Pid} {m : Addr}
    (h : SendOutcome k s d m k') (hI : IndexInv k) : IndexInv k' := by
  cases h with
  | deliver =>
    exact ⟨(sameQueues_deliver _ d).targetsValid hI.targets, hI.flat, hI.noInt, hI.kReenter⟩
  | enqueue _ _ tail _ r =>
    refine ⟨fun p hp => ?_, hI.flat, hI.noInt, hI.kReenter⟩
    by_cases hps : p = s
    · exact ⟨d, by simp [SimpleOs.enqueue, hps]⟩
    · have hp' : Sending (k.procTable p) := by simpa [Sending, SimpleOs.enqueue, hps] using hp
      simpa [SimpleOs.enqueue, hps] using hI.targets p hp'

theorem ReceiveOutcome.indexInv {k k' : Machine} {w : Pid} {src : ℤ} {m : Addr}
    (h : ReceiveOutcome k w src m k') (hI : IndexInv k) : IndexInv k' := by
  cases h with
  | interrupt hint => exact absurd (hI.noInt w) hint
  | take f prev =>
    refine ⟨hI.targets.mono fun p hp => ?_, hI.flat, hI.noInt, hI.kReenter⟩
    by_cases hpf : p = f
    · simp [sending_iff, dequeue, hpf] at hp
    · exact ⟨by simpa [Sending, dequeue, hpf] using hp, by simp [dequeue, hpf]⟩
  | wait =>
    exact ⟨(sameQueues_park _ w _ _).targetsValid hI.targets, hI.flat, hI.noInt, hI.kReenter⟩

theorem IndexInv.fork {k : Machine} (hI : IndexInv k) (pid child : Pid)
    (hchild : child.val ≥ NR_TASKS + NR_NATIVE_PROCS) (mem : Mem) (used : BitVec 32) :
    IndexInv { k with
      procTable := forkTable k.procTable pid child, mem := mem, memoryUsed := used } := by
  refine ⟨fun p hp => ?_, fun p hp => ?_, fun p => ?_, hI.kReenter⟩
  · by_cases hpc : p = child
    · subst hpc
      simp only [forkTable, Function.update_self] at hp ⊢
      exact hI.targets pid hp
    · simp only [forkTable, Function.update_of_ne hpc] at hp ⊢
      exact hI.targets p hp
  · have hpc : p ≠ child := by
      rintro rfl
      unfold proc2pid at hp
      have : (p.val : ℤ) ≥ (NR_TASKS : ℤ) + NR_NATIVE_PROCS := by exact_mod_cast hchild
      omega
    simp only [forkTable, Function.update_of_ne hpc]
    exact hI.flat p hp
  · by_cases hpc : p = child
    · subst hpc
      simp only [forkTable, Function.update_self]
      exact hI.noInt pid
    · simp only [forkTable, Function.update_of_ne hpc]
      exact hI.noInt p

/-- Only flags change, and no process enters a send. -/
theorem IndexInv.sameQueues {k : Machine} (hI : IndexInv k) {t : ProcTable}
    (h : SameQueues k.procTable t) (hl : ∀ p, (t p).ldtData = (k.procTable p).ldtData)
    (hi : ∀ p, (t p).hasIntMsg = (k.procTable p).hasIntMsg) :
    IndexInv { k with procTable := t } := by
  refine ⟨h.targetsValid hI.targets, fun p hp => ?_, fun p => ?_, hI.kReenter⟩
  · rw [hl]
    exact hI.flat p hp
  · rw [hi]
    exact hI.noInt p

theorem MmSent.indexInv {k k' : Machine} {d : Pid} {msg : Addr} (h : MmSent k d msg k')
    (hI : IndexInv k) : IndexInv k' :=
  h.outcome.indexInv ⟨hI.targets, hI.flat, hI.noInt, hI.kReenter⟩

theorem MmOutcome.indexInv {img : MmImage} {k k' : Machine} {pc pc' : MmPc}
    (h : MmOutcome img k pc k' pc') (hI : IndexInv k) : IndexInv k' := by
  -- the messages the task builds change memory only
  have hmem : ∀ mem, IndexInv { k with mem := mem } :=
    fun mem => ⟨hI.targets, hI.flat, hI.noInt, hI.kReenter⟩
  cases h with
  | receive h => exact h.indexInv (hmem _)
  | forkNone => exact hI
  | fork pid child used _ _ _ hchild => exact hI.fork pid child hchild _ used
  | exitWaited pid parent =>
    exact hI.sameQueues (sameQueues_exitWaited _ pid parent _) (fun _ => rfl) fun _ => rfl
  | exitHanging pid parent =>
    exact hI.sameQueues (sameQueues_exitHanging _ pid parent _) (fun _ => rfl) fun _ => rfl
  | waitHanging => exact hI
  | waitChildren pid =>
    exact hI.sameQueues (sameQueues_setWaiting _ pid) (fun _ => rfl) fun _ => rfl
  | waitChildless => exact hI
  | exec => exact ⟨hI.targets, hI.flat, hI.noInt, hI.kReenter⟩
  | forkSend _ _ h => exact h.indexInv (hmem _)
  | cleanupSend _ _ _ _ h => exact h.indexInv (hmem _)
  | cleanupFree proc =>
    refine ⟨hI.targets.mono fun p hp => ?_, hI.flat, hI.noInt, hI.kReenter⟩
    by_cases hpp : p = proc
    · simp [Sending, freeSlot, hpp] at hp
    · exact ⟨by simpa [Sending, freeSlot, hpp] using hp, rfl⟩
  | scanFound =>
    exact hI.sameQueues (sameQueues_clearWaiting _ INIT) (fun _ => rfl) fun _ => rfl
  | scanDone => exact hI
  | waitNone _ h => exact h.indexInv (hmem _)
  | reply _ _ h => exact h.indexInv (hmem _)

theorem MmSysStep.indexInv {img : MmImage} {C : MmState → Prop} {s s' : MmState}
    (h : MmSysStep img C s s') (hI : IndexInv s.k) : IndexInv s'.k := by
  cases h with
  | user p _ _ m _ _ h =>
    have hstamp : IndexInv (stampSource s.k p m) := ⟨hI.targets, hI.flat, hI.noInt, hI.kReenter⟩
    rcases sysSendrec_outcome h with ⟨d, _, _, _, _, hout⟩ | ⟨_, _, hout⟩
    · exact hout.indexInv hstamp
    · exact hout.indexInv hstamp
  | task eax _ _ h => exact (mmStep_outcome h).indexInv hI
  | other h hk =>
    refine ⟨?_, ?_, ?_, hk.trans hI.kReenter⟩
    · rw [h]; exact hI.targets
    · rw [h]; exact hI.flat
    · rw [h]; exact hI.noInt

theorem Quiescent.indexInv {k : Machine} (h : Quiescent k.procTable) (hk : k.kReenter = 0) :
    IndexInv k :=
  ⟨h.queueInv.target, h.flat, fun p => (h.idle p).hasIntMsg, hk⟩

/-- In every state of every run, a call that passes the assertion of
    `sys_sendrec` and does not name its caller stays inside the table exactly
    when it names a process, or receives from `ANY`. -/
theorem mmRun_index_safe_iff {img : Image} {mimg : MmImage} {s : MmState}
    (h : Reachable (fun s => MmBooted img s ∧ s.k.kReenter = 0)
      (MmSysStep mimg fun _ => True) s)
    {p : Pid} {function srcDest : ℤ} (m : Addr) (hf : function = SEND ∨ function = RECEIVE)
    (hsrc : (0 ≤ srcDest ∧ srcDest < NR_TASKS + NR_PROCS) ∨ srcDest = ANY ∨ srcDest = INTERRUPT)
    (hne : proc2pid p ≠ srcDest) :
    (∀ i, sysSendrec s.k function srcDest m p ≠ .error (.badIndex i)) ↔
      (0 ≤ srcDest ∧ srcDest < NR_TASKS + NR_PROCS) ∨ (function = RECEIVE ∧ srcDest = ANY) := by
  have hI : IndexInv s.k :=
    h.invariant (I := fun s => IndexInv s.k) (fun _ h0 => h0.1.1.quiescent.indexInv h0.2)
      fun _ _ hI hs => hs.indexInv hI
  have hpid : (0 ≤ srcDest ∧ srcDest < NR_TASKS + NR_PROCS) ↔ ∃ q : Pid, srcDest = proc2pid q := by
    constructor
    · intro hr
      obtain ⟨n, rfl⟩ := Int.eq_ofNat_of_zero_le hr.1
      have hn : n < 35 := by exact_mod_cast hr.2
      exact ⟨⟨n, hn⟩, rfl⟩
    · intro hq
      obtain ⟨q, rfl⟩ := hq
      exact ⟨proc2pid_nonneg q, proc2pid_lt q⟩
  rw [hpid]
  constructor
  · intro hsafe
    by_contra hbad
    refine hsafe srcDest (sysSendrec_badIndex m hI.kReenter hI.flat (hI.noInt p) hf ?_ hbad)
    rcases hsrc with hr | hr
    · exact absurd (.inl (hpid.mp hr)) hbad
    · exact hr
  · intro hok
    exact sysSendrec_inRange hI.targets hok m p

/-- A send to `ANY` by INIT, on the booted machine. -/
theorem mmRun_index_safe_iff_any :
    ¬ ∀ i, sysSendrec (requestMachine 0) SEND ANY 0x1000 INIT ≠ .error (.badIndex i) := by
  have hinit : Reachable (fun s => MmBooted sampleImage s ∧ s.k.kReenter = 0)
      (MmSysStep sampleMmImage fun _ => True) ⟨requestMachine 0, .receive⟩ :=
    .init ⟨requestMachine_booted 0, rfl⟩
  rw [mmRun_index_safe_iff hinit 0x1000 (.inl rfl) (.inr (.inl rfl)) (by decide)]
  decide

/-- A receive of an interrupt by TASK_TTY, on the booted machine: the slot
    number is `-10`. -/
theorem sysSendrec_receive_interrupt :
    ∃ s, Reachable (fun s => MmBooted sampleImage s ∧ s.k.kReenter = 0)
        (MmSysStep sampleMmImage fun _ => True) s ∧
      proc2pid TASK_TTY ≠ INTERRUPT ∧
      ¬ ∀ i, sysSendrec s.k RECEIVE INTERRUPT 0x1000 TASK_TTY ≠ .error (.badIndex i) := by
  refine ⟨⟨requestMachine 0, .receive⟩, .init ⟨requestMachine_booted 0, rfl⟩, by decide,
    fun h => h (-10) rfl⟩

end SimpleOs
