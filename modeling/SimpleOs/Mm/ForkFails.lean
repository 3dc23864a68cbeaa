import SimpleOs.Mm.Blocks
import SimpleOs.Mm.Fork

/-!
# A FORK without a free slot

`do_fork` then returns `-1` before it has changed anything (mm/mm.c:139-140).
`task_mm` puts the number into `RETVAL` of the message it has received and sends
that message back; `fork` returns `PID` of it (syscall.c:37), a word that nobody
has written since the caller's stack frame was made.

* `forkRun_refused_iff`: in every order of the calls `fork` returns that word, and
  what is negative of the two is not the number of `do_fork`.
* `refused_fork_returns_zero`: INIT takes itself for the child.
-/

namespace SimpleOs

open ByteMem Transition Intrusive

/-! ## The call -/

/-- What `fork` returns from the message it has got back (syscall.c:37). -/
def forkResult (msg : Message) : ℤ := msg.pid.toInt

/-- The FORK at `m` comes to `task_mm`, which is blocked in its receive when the
    caller sends, or finds the caller at the head of its queue. -/
inductive ForkTakes (img : MmImage) (caller : Pid) (m : Addr) (s : MmState) : MmState → Prop
  | sent {k' : Machine} (hpc : s.pc = .dispatch)
      (htask : (s.k.procTable TASK_MM).pFlags = RECEIVING ∧
        (s.k.procTable TASK_MM).pRecvfrom = ANY ∧ (s.k.procTable TASK_MM).msg = img.mmMsg)
      (hready : (s.k.procTable caller).pFlags = 0)
      (h : sysSendrec s.k SEND (proc2pid TASK_MM) m caller = .ok k') :
      ForkTakes img caller m s ⟨k', s.pc⟩
  | queued {k' : Machine} {pc' : MmPc} (eax : BitVec 32) (hpc : s.pc = .receive)
      (hready : (s.k.procTable TASK_MM).pFlags = 0)
      (hhead : (s.k.procTable TASK_MM).qSending = some caller)
      (hmsg : (s.k.procTable caller).msg = m)
      (hsource : (readMessage s.k.mem (linear s.k.procTable caller m)).source =
        BitVec.ofInt 32 (proc2pid caller))
      (h : mmStep img eax s.k s.pc = .ok (k', pc')) :
      ForkTakes img caller m s ⟨k', pc'⟩

/-- The message at `m` is a FORK and there is no free slot. What the caller's
    `q_sending` leads to ends, and is neither the caller nor `task_mm`; the messages of
    the two are different objects. -/
structure ForkRefused (img : MmImage) (s : MmState) (caller : Pid) (m : Addr) : Prop where
  ne : caller ≠ TASK_MM
  type : (readMessage s.k.mem (linear s.k.procTable caller m)).type = FORK
  full : findFreeSlot s.k.procTable = none
  queue : ∃ l, SendChain s.k.procTable caller l ∧ TASK_MM ∉ l ∧ caller ∉ l
  addr : m ≠ 0 ∧ img.mmMsg ≠ 0
  apart : Separate (linear s.k.procTable caller m) img.mmMsg

/-! ## What a refusal leaves alone -/

/-- The process with the IPC fields of another. -/
def Process.withIpcOf (p q : Process) : Process :=
  { p with
    pFlags := q.pFlags
    msg := q.msg
    pRecvfrom := q.pRecvfrom
    pSendto := q.pSendto
    qSending := q.qSending
    nextSending := q.nextSending }

/-- Nothing has changed but the IPC fields and the two messages. -/
structure Unchanged (img : MmImage) (caller : Pid) (m : Addr) (k k' : Machine) : Prop where
  table : ∀ p, (k'.procTable p).withIpcOf (k.procTable p) = k.procTable p
  occupied : ∀ p, Occupied (k'.procTable p) ↔ Occupied (k.procTable p)
  memoryUsed : k'.memoryUsed = k.memoryUsed
  mem : ∀ a, ¬ InMessage img.mmMsg a → ¬ InMessage (linear k.procTable caller m) a →
    k'.mem a = k.mem a

/-- No call fails or changes anything, whatever has happened since the last one. -/
def RefusalSafe (img : MmImage) (caller : Pid) (m : Addr) (s : ForkState) : Prop :=
  ∀ k, Undisturbed img m s k →
    (s.pc ≠ .receive → (k.procTable TASK_MM).pFlags = 0 → ∀ eax, ∃ k' pc',
      mmStep img eax k s.pc = .ok (k', pc') ∧ Unchanged img caller m k k') ∧
    (s.stage caller = .due → (k.procTable caller).pFlags = 0 → ∃ k',
      sysSendrec k RECEIVE (proc2pid TASK_MM) m caller = .ok k' ∧ Unchanged img caller m k k')

/-- `fork` has returned from the message `msg`, and `task_mm` is ready for its next
    receive. -/
structure ForkReturned (caller : Pid) (msg : Message) (s : ForkState) : Prop where
  pc : s.pc = .receive
  task : (s.k.procTable TASK_MM).pFlags = 0
  returned : s.stage caller = .away ∧ s.read caller = [msg]
  got : s.got = [⟨TASK_MM, caller, msg⟩]

/-- From the state in which the FORK is taken, in every order of the steps: nothing
    changes, and `fork` returns a number with the property `P`. -/
def ForkComesTo (img : MmImage) (caller : Pid) (m : Addr) (s : MmState) (P : ℤ → Prop) : Prop :=
  Inevitable (ForkStep img caller m) (RefusalSafe img caller m)
    (fun s' => ∃ msg, ForkReturned caller msg s' ∧ P (forkResult msg))
    (ForkState.start s caller)

section Calls

variable {img : MmImage} {caller : Pid} {m : Addr} {k k' : Machine}

theorem Unchanged.refl (img : MmImage) (caller : Pid) (m : Addr) (k : Machine) :
    Unchanged img caller m k k :=
  ⟨fun _ => rfl, fun _ => Iff.rfl, rfl, fun _ _ _ => rfl⟩

/-- `do_fork` returns at once. -/
theorem doFork_full (h : findFreeSlot k.procTable = none) : doFork img k = .ok (k, none) := by
  unfold doFork
  rw [h]

theorem mmDispatch_full (eax : BitVec 32) (htype : mmType img k = FORK)
    (h : findFreeSlot k.procTable = none) :
    mmStep img eax k .dispatch = .ok (k, .reply (mmSource img k) (-1)) := by
  change mmDispatch img eax k = _
  simp only [mmDispatch]
  rw [if_pos htype, doFork_full h]
  rfl

end Calls

/-! ## The parties -/

/-- What holds until `fork` returns; `w` is the word at `PID`. -/
structure RefusalScene (img : MmImage) (caller : Pid) (m : Addr) (w : BitVec 32)
    (s : ForkState) : Prop where
  kReenter : s.k.kReenter = 0
  flat : NativeFlat s.k.procTable
  ne : caller ≠ TASK_MM
  others : ∀ c, s.stage c ≠ .away → c = caller
  addr : m ≠ 0 ∧ img.mmMsg ≠ 0
  apart : Separate (linear s.k.procTable caller m) img.mmMsg
  pid : (readMessage s.k.mem img.mmMsg).pid = w

/-- Processes that can wait in front of `task_mm`. -/
def InFront (l : List Pid) : Prop := l.Nodup ∧ TASK_MM ∉ l

/-- The phases of a refusal, with a bound on the steps to come. The processes of `l` are
    queued on the caller. -/
inductive Refusing (img : MmImage) (caller : Pid) (m : Addr) (w : BitVec 32) (l : List Pid) :
    ℕ → ForkState → Prop
  /-- `task_mm` has the FORK in hand. -/
  | asked {s : ForkState} (h : RefusalScene img caller m w s) (hpc : s.pc = .dispatch)
      (htask : (s.k.procTable TASK_MM).Ready) (htype : mmType img s.k = FORK)
      (hsource : mmSource img s.k = proc2pid caller) (hfull : findFreeSlot s.k.procTable = none)
      (hin : InFork m l s caller) (hgot : s.got = []) :
      Refusing img caller m w l (5 + (s.stage caller).weight) s
  /-- `do_fork` has returned `-1`. -/
  | refused {s : ForkState} (h : RefusalScene img caller m w s)
      (hpc : s.pc = .reply (proc2pid caller) (-1)) (htask : (s.k.procTable TASK_MM).Ready)
      (hin : InFork m l s caller) (hgot : s.got = []) :
      Refusing img caller m w l (3 + (s.stage caller).weight) s
  /-- `task_mm` waits for the caller. -/
  | callerDue {s : ForkState} (h : RefusalScene img caller m w s) (hpc : s.pc = .receive)
      (hmeet : Meeting s caller img.mmMsg) (hgot : s.got = []) : Refusing img caller m w l 2 s
  /-- The caller has its message. -/
  | answered {s : ForkState} (h : RefusalScene img caller m w s) (hpc : s.pc = .receive)
      (htask : (s.k.procTable TASK_MM).Ready) (msg : Message)
      (hmsg : HasMessage True m s caller msg) (hserved : s.stage caller = .served)
      (hgot : s.got = [⟨TASK_MM, caller, msg⟩]) (hpid : msg.pid = w) :
      Refusing img caller m w l 1 s

section Phases

variable {img : MmImage} {caller : Pid} {m : Addr} {w : BitVec 32} {l : List Pid}
  {s s' : ForkState} {k k' : Machine} {n : ℕ}

theorem Refusing.scene (h : Refusing img caller m w l n s) : RefusalScene img caller m w s := by
  cases h with
  | asked h => exact h
  | refused h => exact h
  | callerDue h => exact h
  | answered h => exact h

theorem RefusalScene.on (h : RefusalScene img caller m w s) (hq : Undisturbed img m s k) :
    RefusalScene img caller m w (s.on k) := by
  refine ⟨hq.kReenter.trans h.kReenter, fun p hp => ?_, h.ne, h.others, h.addr, ?_, ?_⟩
  · change ldtSegLinear (k.procTable p).ldtData = 0
    rw [hq.ldtData]
    exact h.flat p hp
  · change Separate (linear k.procTable caller m) _
    rw [hq.linear]
    exact h.apart
  · exact (congrArg Message.pid (hq.message (.inl rfl))).trans h.pid

theorem Refusing.on (h : Refusing img caller m w l n s) (hq : Undisturbed img m s k) :
    Refusing img caller m w l n (s.on k) := by
  cases h with
  | asked h hpc htask htype hsource hfull hin hgot =>
    obtain ⟨htype', hsource'⟩ := request_congr (hq.message (.inl rfl))
    exact .asked (s := s.on k) (h.on hq) hpc (hq.task.ready htask) (htype'.trans htype)
      (hsource'.trans hsource) ((findFreeSlot_congr hq.free).trans hfull) (hin.on hq) hgot
  | refused h hpc htask hin hgot =>
    exact .refused (s := s.on k) (h.on hq) hpc (hq.task.ready htask) (hin.on hq) hgot
  | callerDue h hpc hmeet hgot =>
    exact .callerDue (s := s.on k) (h.on hq) hpc (hmeet.on hq) hgot
  | answered h hpc htask msg hmsg hserved hgot hpid =>
    exact .answered (s := s.on k) (h.on hq) hpc (hq.task.ready htask) msg (hmsg.on hq) hserved hgot
      hpid

/-! ### Every call returns and changes nothing -/

/-- The first four bytes of a message lie in it. -/
theorem inMessage_of_source {b a : Addr} (h : InBlock b 4 a) : InMessage b a := by
  unfold InMessage InBlock sizeofMessage at *
  omega

theorem SendOutcome.withIpcOf {a d : Pid} {b : Addr} (h : SendOutcome k a d b k') (p : Pid) :
    (k'.procTable p).withIpcOf (k.procTable p) = k.procTable p := by
  cases h with
  | deliver => rfl
  | enqueue => rfl

theorem reply_unchanged (hflat : NativeFlat k.procTable) (htask : (k.procTable TASK_MM).Ready)
    {st : Stage} (hslot : AtStage m (k.procTable caller) st)
    (hqueue : SendChain k.procTable caller l) (hl : InFront l)
    (hapart : Separate (linear k.procTable caller m) img.mmMsg) {retval : BitVec 32}
    (h : MmSent (replyMessage img k retval) caller img.mmMsg k') :
    Unchanged img caller m k k' := by
  refine ⟨h.outcome.withIpcOf, h.outcome.sameSlots.occupied, ?_, fun a hmm hbuf => ?_⟩
  · cases h.outcome with
    | deliver => rfl
    | enqueue => rfl
  · refine Eq.trans ?_ (replyMessage_kept img k retval hmm)
    rcases mmSent_cases (replyMessage img k retval) hflat htask rfl hslot hqueue hl.1 hapart h with
      ⟨_, _, _, _, _, hmem⟩ | ⟨_, _, _, _, hmem⟩
    · exact hmem a hmm hbuf
    · exact hmem a hmm

theorem receive_unchanged (hint : (k.procTable caller).hasIntMsg = 0)
    (h : sysSendrec k RECEIVE (proc2pid TASK_MM) m caller = .ok k') :
    Unchanged img caller m k k' := by
  refine ⟨fun p => ?_, fun p => ?_, (sysSendrec_bitmap h).1, fun a _ hbuf => ?_⟩
  · cases (sysSendrec_receive hint h).from_proc with
    | taken _ _ _ htable => rw [htable]; rfl
    | parked _ htable => rw [htable]; rfl
  · cases (sysSendrec_receive hint h).from_proc with
    | taken prev _ _ htable =>
      rw [htable]
      exact (sameSlots_dequeue _ caller TASK_MM prev).occupied p
    | parked _ htable =>
      rw [htable]
      exact (sameSlots_park _ caller (proc2pid TASK_MM) m).occupied p
  · refine sysSendrec_writes hint h fun hw => ?_
    rcases hw with hw | ⟨hf, _⟩ | ⟨_, _, hw⟩
    · exact hbuf (inMessage_of_source hw)
    · exact absurd hf (by decide)
    · exact hbuf hw

theorem Refusing.task_ok (h : Refusing img caller m w l n s) (hl : InFront l)
    (hno : s.pc ≠ .receive) (eax : BitVec 32) :
    ∃ k' pc', mmStep img eax s.k s.pc = .ok (k', pc') ∧ Unchanged img caller m s.k k' := by
  cases h with
  | asked h hpc htask htype hsource hfull hin hgot =>
    refine ⟨s.k, .reply (mmSource img s.k) (-1), ?_, Unchanged.refl img caller m s.k⟩
    rw [hpc, mmDispatch_full eax htype hfull]
  | refused h hpc htask hin hgot =>
    obtain ⟨k', hk'⟩ := mmSend_ok (k := replyMessage img s.k (-1)) h.kReenter h.flat htask h.ne
      h.addr.2 hin.slot hin.queue hl.1
    refine ⟨k', .receive, ?_, ?_⟩
    · rw [hpc]
      simp only [mmStep, bind_eq_ok]
      exact ⟨k', hk', rfl⟩
    · obtain ⟨d, hd, hsent⟩ := mmSend_sent hk'
      obtain rfl := proc2pid_inj.mp hd
      exact reply_unchanged h.flat htask hin.slot hin.queue hl h.apart hsent
  | callerDue h hpc => exact absurd hpc hno
  | answered h hpc => exact absurd hpc hno

theorem Refusing.caller_ok (h : Refusing img caller m w l n s) (hdue : s.stage caller = .due) :
    ∃ k', sysSendrec s.k RECEIVE (proc2pid TASK_MM) m caller = .ok k' ∧
      Unchanged img caller m s.k k' := by
  have hwaits : (s.k.procTable TASK_MM).Ready → InFork m l s caller →
      ∃ k', sysSendrec s.k RECEIVE (proc2pid TASK_MM) m caller = .ok k' ∧
        Unchanged img caller m s.k k' := by
    intro htask hin
    have hslot := hin.slot
    rw [hdue] at hslot
    obtain ⟨hready, hint⟩ := hslot
    obtain ⟨k', hk'⟩ := sysSendrec_receive_waits h.scene.kReenter h.scene.flat hready hint
      (fun hs => htask.not_sending hs.1) h.scene.ne.symm h.scene.addr.1
      ⟨TASK_MM, h.scene.ne.symm, htask.flags⟩
    exact ⟨k', hk', receive_unchanged hint hk'⟩
  cases h with
  | asked h hpc htask htype hsource hfull hin => exact hwaits htask hin
  | refused h hpc htask hin => exact hwaits htask hin
  | callerDue h hpc hmeet =>
    obtain ⟨k', hk'⟩ := hmeet.receive_ok h.kReenter h.flat h.addr.1 h.ne
    exact ⟨k', hk', receive_unchanged hmeet.noInt hk'⟩
  | answered _ _ _ _ hmsg => exact absurd hdue hmsg.not_due

theorem Refusing.refusalSafe (h : Refusing img caller m w l n s) (hl : InFront l) :
    RefusalSafe img caller m s :=
  fun _ hq => ⟨fun hno _ => (h.on hq).task_ok hl hno, fun hdue _ => (h.on hq).caller_ok hdue⟩

/-- In every phase somebody can make a step. -/
theorem Refusing.more (h : Refusing img caller m w l n s) (hl : InFront l) :
    ∃ s', ForkStep img caller m s s' := by
  have hq := Undisturbed.refl img m s
  have htask : s.pc ≠ .receive → (s.k.procTable TASK_MM).pFlags = 0 →
      ∃ s', ForkStep img caller m s s' := by
    intro hno hready
    obtain ⟨k', pc', hstep, _⟩ := h.task_ok hl hno 0
    exact ⟨_, .task 0 hq hno hready hstep⟩
  cases h with
  | asked _ hpc ht => exact htask (by rw [hpc]; nofun) ht.flags
  | refused _ hpc ht => exact htask (by rw [hpc]; nofun) ht.flags
  | callerDue h hpc hmeet hgot =>
    obtain ⟨k', hcall, _⟩ := (Refusing.callerDue (l := l) h hpc hmeet hgot).caller_ok hmeet.due
    exact ⟨_, .receive caller hq hmeet.due hmeet.ready.flags hcall⟩
  | answered _ _ _ _ hmsg hserved => exact ⟨_, .read caller hq hserved (hmsg.ready hserved)⟩

/-! ### The steps of `task_mm` -/

/-- A step that leaves the table alone completes no receive. -/
theorem mmDelivered_self (k : Machine) : mmDelivered k k = [] := by
  have hnone : (List.finRange 35).filter (fun d => (k.procTable d).pFlags &&& RECEIVING ≠ 0 ∧
      (k.procTable d).pFlags &&& RECEIVING = 0) = [] :=
    filter_slots_eq_nil fun d hd => hd.1 hd.2
  unfold mmDelivered
  rw [hnone]
  rfl

/-- The scene after a step before the last. -/
theorem RefusalScene.next (h : RefusalScene img caller m w s) (hk : s'.k.kReenter = 0)
    (hldt : ∀ p, (s'.k.procTable p).ldtData = (s.k.procTable p).ldtData)
    (hstage : ∀ c, c ≠ caller → s'.stage c = s.stage c)
    (hpid : (readMessage s'.k.mem img.mmMsg).pid = w) : RefusalScene img caller m w s' := by
  refine ⟨hk, fun p hp => ?_, h.ne, fun c hc => ?_, h.addr, ?_, hpid⟩
  · rw [hldt]
    exact h.flat p hp
  · by_contra hne
    rw [hstage c hne] at hc
    exact hne (h.others c hc)
  · have hlin : linear s'.k.procTable caller m = linear s.k.procTable caller m := by
      rw [linear, linear, hldt]
    rw [hlin]
    exact h.apart

theorem refused_step {eax : BitVec 32} {pc' : MmPc} (h : RefusalScene img caller m w s)
    (htask : (s.k.procTable TASK_MM).Ready) (hin : InFork m l s caller) (hl : InFront l)
    (hgot : s.got = [])
    (hstep : mmStep img eax s.k (.reply (proc2pid caller) (-1)) = .ok (k', pc')) :
    ∃ n', n' < 3 ∧ Refusing img caller m w l n' (s.afterTask caller s.k k' pc') := by
  generalize hpc : MmPc.reply (proc2pid caller) (-1) = pc at hstep
  cases mmStep_outcome hstep with
  | reply src retval hsent =>
    obtain ⟨hsrc, rfl⟩ := MmPc.reply.inj hpc
    obtain rfl := proc2pid_inj.mp hsrc
    have hk' : k'.kReenter = 0 := hsent.outcome.kReenter.trans h.kReenter
    have hanswers := (answers_replyMessage (-1) h.pid).fromTask
    set s' := s.afterTask caller s.k k' .receive with hs'
    rcases mmSent_cases (replyMessage img s.k (-1)) h.flat htask rfl hin.slot hin.queue hl.1 h.apart
      hsent with ⟨hst, htable, hdel, hcopy, hmsg, _⟩ | ⟨hst, htable, hdel, hmsg, _⟩
    · have hstage : s'.stage = Function.update s.stage caller .served :=
        s.stage_delivered rfl hdel
      have hserved : s'.stage caller = .served := by rw [hstage, Function.update_self]
      refine ⟨1, by omega, .answered (h.next hk' (fun p => ?_) (fun c hc => ?_) ?_) rfl ?_ _
        (hasMessage_of_deliver hin hst hserved rfl htable hcopy) hserved ?_ hanswers.2⟩
      · change (k'.procTable p).ldtData = _
        rw [htable]
        rfl
      · rw [hstage, Function.update_of_ne hc]
      · change (readMessage k'.mem img.mmMsg).pid = w
        rw [hmsg]
        exact hanswers.2
      · change (k'.procTable TASK_MM).Ready
        rw [htable]
        exact (sameIpc_deliver _ h.ne.symm).ready htask
      · change s.got ++ mmDelivered s.k k' = _
        rw [hgot, hdel]
        rfl
    · have hstage : s'.stage = s.stage := s.stage_queued rfl hdel
      refine ⟨2, by omega, .callerDue (h.next hk' (fun p => ?_) (fun c _ => congrFun hstage c) ?_)
        rfl (meeting_of_enqueue htask h.addr.2 h.ne hin hst hl.1 hl.2 (by rw [hstage, hst]) rfl
          htable) ?_⟩
      · change (k'.procTable p).ldtData = _
        rw [htable]
        rfl
      · change (readMessage k'.mem img.mmMsg).pid = w
        rw [hmsg]
        exact hanswers.2
      · change s.got ++ mmDelivered s.k k' = _
        rw [hgot, hdel]
        rfl
  | _ => cases hpc

theorem Refusing.task_step {eax : BitVec 32} {pc' : MmPc} (h : Refusing img caller m w l n s)
    (hl : InFront l) (hno : s.pc ≠ .receive) (hstep : mmStep img eax s.k s.pc = .ok (k', pc')) :
    ∃ n', n' < n ∧ Refusing img caller m w l n' (s.afterTask caller s.k k' pc') := by
  cases h with
  | asked h hpc htask htype hsource hfull hin hgot =>
    rw [hpc, mmDispatch_full eax htype hfull, hsource] at hstep
    obtain ⟨rfl, rfl⟩ := Prod.mk.inj (Except.ok.inj hstep)
    have hstage : (s.afterTask caller s.k s.k (.reply (proc2pid caller) (-1))).stage =
        s.stage := by
      unfold ForkState.afterTask
      dsimp only
      rw [mmDelivered_self, serve_nil]
      rfl
    refine ⟨_, ?_, .refused (h.next h.kReenter (fun _ => rfl) (fun c _ => congrFun hstage c) h.pid)
      rfl htask (hin.frame (congrFun hstage caller) rfl ⟨rfl, rfl, rfl, rfl⟩ (fun hq => hq) rfl) ?_⟩
    · rw [hstage]
      omega
    · change s.got ++ mmDelivered s.k s.k = _
      rw [mmDelivered_self, List.append_nil, hgot]
  | refused h hpc htask hin hgot =>
    rw [hpc] at hstep
    obtain ⟨n', hn', hnext⟩ := refused_step h htask hin hl hgot hstep
    exact ⟨n', by omega, hnext⟩
  | callerDue h hpc => exact absurd hpc hno
  | answered h hpc => exact absurd hpc hno

/-! ### The steps of the caller -/

/-- The caller blocks in its receive. -/
theorem RefusalScene.parked (h : RefusalScene img caller m w s)
    (htask : (s.k.procTable TASK_MM).Ready) (hin : InFork m l s caller)
    (hdue : s.stage caller = .due)
    (hcall : sysSendrec s.k RECEIVE (proc2pid TASK_MM) m caller = .ok k') :
    RefusalScene img caller m w (s.afterReceive s.k k' caller m) ∧
      (s.afterReceive s.k k' caller m).stage caller = .parked ∧
      InFork m l (s.afterReceive s.k k' caller m) caller ∧
      (s.afterReceive s.k k' caller m).got = s.got ∧
      k'.procTable = park s.k.procTable caller (proc2pid TASK_MM) m ∧
      readMessage k'.mem img.mmMsg = readMessage s.k.mem img.mmMsg := by
  obtain ⟨hstage, hgot, htable, hmem, hin'⟩ := hin.parks hdue h.addr.1
    (fun hs => htask.not_sending hs.1) hcall
  have hmsg : readMessage k'.mem img.mmMsg = readMessage s.k.mem img.mmMsg :=
    readMessage_frame fun a ha => hmem a fun hc => h.apart a hc ha
  refine ⟨h.next (sysSendrec_kReenter hcall).2 (fun p => ?_) (fun c hc => ?_)
    ((congrArg Message.pid hmsg).trans h.pid), ?_, hin', hgot, htable, hmsg⟩
  · change (k'.procTable p).ldtData = _
    rw [htable]
    rfl
  · rw [hstage, Function.update_of_ne hc]
  · rw [hstage, Function.update_self]

/-- The caller meets `task_mm`. -/
theorem RefusalScene.taken (h : RefusalScene img caller m w s) (hpc : s.pc = .receive)
    (hmeet : Meeting s caller img.mmMsg) (hgot : s.got = [])
    (hcall : sysSendrec s.k RECEIVE (proc2pid TASK_MM) m caller = .ok k') :
    Refusing img caller m w l 1 (s.afterReceive s.k k' caller m) := by
  obtain ⟨prev, _, htable, hrecv, hcopy, hmem⟩ := receive_from_task h.flat hmeet.noInt hmeet.sendsTo
    hmeet.msg h.apart hcall
  have hstage : (s.afterReceive s.k k' caller m).stage =
      Function.update s.stage caller .served := by
    unfold ForkState.afterReceive
    dsimp only
    rw [hrecv, serve_singleton, Function.update_idem]
  have hserved : (s.afterReceive s.k k' caller m).stage caller = .served := by
    rw [hstage, Function.update_self]
  refine .answered (h.next (sysSendrec_kReenter hcall).2 (fun p => ?_) (fun c hc => ?_) ?_) hpc ?_ _
    (.due hserved ?_ hmeet.unread fun _ => ?_) hserved ?_ h.pid
  · change (k'.procTable p).ldtData = _
    rw [htable]
    rfl
  · rw [hstage, Function.update_of_ne hc]
  · refine Eq.trans (congrArg Message.pid (readMessage_frame fun a ha => ?_)) h.pid
    exact hmem a fun hc => h.apart a hc ha
  · change (k'.procTable TASK_MM).Ready
    rw [htable]
    exact ready_dequeue caller _ hmeet.task.flags hmeet.task.recvfrom
  · change (k'.procTable caller).pFlags = 0
    rw [htable]
    exact ((sameIpc_dequeue _ _ h.ne).ready hmeet.ready).flags
  · have hlin : linear k'.procTable caller m = linear s.k.procTable caller m := by
      rw [htable]
      rfl
    change readMessage k'.mem (linear k'.procTable caller m) = _
    rw [hlin, hcopy]
  · change s.got ++ receiveReceived s.k k' caller m = _
    rw [hgot, hrecv]
    rfl

theorem Refusing.receive_step (h : Refusing img caller m w l n s) (hdue : s.stage caller = .due)
    (hcall : sysSendrec s.k RECEIVE (proc2pid TASK_MM) m caller = .ok k') :
    ∃ n', n' < n ∧ Refusing img caller m w l n' (s.afterReceive s.k k' caller m) := by
  cases h with
  | asked h hpc htask htype hsource hfull hin hgot =>
    obtain ⟨hscene, hparked, hin', hgot', htable, hmsg⟩ := h.parked htask hin hdue hcall
    obtain ⟨htype', hsource'⟩ := request_congr hmsg
    have hflags : (s.k.procTable caller).pFlags = 0 := by
      have hslot := hin.slot
      rw [hdue] at hslot
      exact hslot.1.flags
    have hfull' : findFreeSlot k'.procTable = none := by
      rw [htable, findFreeSlot_park hflags]
      exact hfull
    refine ⟨_, ?_, .asked hscene hpc (ready_park htask h.ne htable) (htype'.trans htype)
      (hsource'.trans hsource) hfull' hin' (hgot'.trans hgot)⟩
    rw [hparked, hdue]
    decide
  | refused h hpc htask hin hgot =>
    obtain ⟨hscene, hparked, hin', hgot', htable, _⟩ := h.parked htask hin hdue hcall
    refine ⟨_, ?_, .refused hscene hpc (ready_park htask h.ne htable) hin' (hgot'.trans hgot)⟩
    rw [hparked, hdue]
    decide
  | callerDue h hpc hmeet hgot => exact ⟨1, by omega, h.taken hpc hmeet hgot hcall⟩
  | answered _ _ _ _ hmsg => exact absurd hdue hmsg.not_due

/-- The caller reads its message. -/
theorem Refusing.read_step (h : Refusing img caller m w l n s)
    (hserved : s.stage caller = .served) :
    ∃ msg, ForkReturned caller msg (s.afterRead s.k caller m) ∧ msg.pid = w := by
  cases h with
  | asked h hpc htask htype hsource hfull hin => exact absurd hserved hin.not_served
  | refused h hpc htask hin => exact absurd hserved hin.not_served
  | callerDue h hpc hmeet =>
    rw [hmeet.due] at hserved
    cases hserved
  | answered h hpc htask msg hmsg _ hgot hpid =>
    cases hmsg.afterRead_self hserved with
    | due hstage =>
      rw [show (s.afterRead s.k caller m).stage caller = .away from Function.update_self ..]
        at hstage
      cases hstage
    | read hstage r hread hown =>
      obtain rfl := hown trivial
      exact ⟨r, ⟨hpc, htask.flags, ⟨hstage, hread⟩, hgot⟩, hpid⟩

/-- Until the end the caller is in `fork`. -/
theorem Refusing.not_away (h : Refusing img caller m w l n s) : s.stage caller ≠ .away := by
  cases h with
  | asked _ _ _ _ _ _ hin => exact hin.inside
  | refused _ _ _ hin => exact hin.inside
  | callerDue _ _ hmeet => rw [hmeet.due]; nofun
  | answered _ _ _ _ _ hserved => rw [hserved]; nofun

theorem Refusing.step (h : Refusing img caller m w l n s) (hl : InFront l)
    (hs : ForkStep img caller m s s') :
    (∃ msg, ForkReturned caller msg s' ∧ msg.pid = w) ∨
      ∃ n', n' < n ∧ Refusing img caller m w l n' s' := by
  cases hs with
  | task eax hq hno _ hstep => exact .inr ((h.on hq).task_step hl hno hstep)
  | receive c hq hdue hready hcall =>
    obtain rfl := h.scene.others c (by rw [hdue]; nofun)
    exact .inr ((h.on hq).receive_step hdue hcall)
  | read c hq hserved _ =>
    obtain rfl := h.scene.others c (by rw [hserved]; nofun)
    exact .inl ((h.on hq).read_step hserved)

end Phases

/-! ## The FORK comes to `task_mm` -/

section Takes

variable {img : MmImage} {caller : Pid} {m : Addr} {s s' : MmState} {k k' : Machine}

/-- `task_mm` has the message of the caller in hand. -/
structure ForkHeld (img : MmImage) (caller : Pid) (m : Addr) (s s' : MmState) : Prop where
  pc : s'.pc = .dispatch
  task : (s'.k.procTable TASK_MM).pFlags = 0
  ready : (s'.k.procTable caller).pFlags = 0
  queue : ∀ l, SendChain s.k.procTable caller l → caller ∉ l → SendChain s'.k.procTable caller l
  free : ∀ p, (s'.k.procTable p).pFlags = FREE_SLOT ↔ (s.k.procTable p).pFlags = FREE_SLOT
  segs : ∀ p va, linear s'.k.procTable p va = linear s.k.procTable p va
  message : readMessage s'.k.mem img.mmMsg =
    { readMessage s.k.mem (linear s.k.procTable caller m) with
      source := BitVec.ofInt 32 (proc2pid caller) }

/-- `task_mm` is blocked in its receive when the caller sends. -/
theorem forkHeld_of_sent (hflat : NativeFlat s.k.procTable) (h : ForkRefused img s caller m)
    (hpc : s.pc = .dispatch)
    (htask : (s.k.procTable TASK_MM).pFlags = RECEIVING ∧
      (s.k.procTable TASK_MM).pRecvfrom = ANY ∧ (s.k.procTable TASK_MM).msg = img.mmMsg)
    (hready : (s.k.procTable caller).pFlags = 0)
    (hcall : sysSendrec s.k SEND (proc2pid TASK_MM) m caller = .ok k') :
    ForkHeld img caller m s ⟨k', s.pc⟩ := by
  obtain ⟨hflags, hany, hmsg⟩ := htask
  cases sysSendrec_send hcall with
  | queued hno =>
    refine absurd ⟨?_, .inr hany⟩ hno
    rw [hflags]
    decide
  | delivered _ _ htable hmem =>
    have hother : ∀ p, p ≠ TASK_MM → (k'.procTable p).pFlags = (s.k.procTable p).pFlags := by
      intro p hp
      rw [htable, (sameIpc_deliver _ hp).flags]
    have hzero : (k'.procTable TASK_MM).pFlags = 0 := by
      rw [htable]
      simp [deliver, hflags]
    refine ⟨hpc, hzero, (hother caller h.ne).trans hready, fun l hl _ => ?_, fun p => ?_,
      fun p va => ?_, ?_⟩
    · change SendChain k'.procTable caller l
      rw [htable]
      exact hl
    · by_cases hp : p = TASK_MM
      · rw [hp]
        change (k'.procTable TASK_MM).pFlags = FREE_SLOT ↔ _
        rw [hzero, hflags]
        decide
      · exact (congrArg (· = FREE_SLOT) (hother p hp)).to_iff
    · change linear k'.procTable p va = _
      rw [htable]
      rfl
    · change readMessage k'.mem img.mmMsg = _
      rw [hmsg, linear_task hflat] at hmem
      rw [hmem, readMessage_copy h.apart.symm.noForwardOverlap, stampSource_message]

/-- `task_mm` finds the caller at the head of its queue. -/
theorem forkHeld_of_queued (hs : SoundTable s.k.procTable) (h : ForkRefused img s caller m)
    (eax : BitVec 32) (hpc : s.pc = .receive) (hready : (s.k.procTable TASK_MM).pFlags = 0)
    (hhead : (s.k.procTable TASK_MM).qSending = some caller)
    (hmsg : (s.k.procTable caller).msg = m)
    (hsource : (readMessage s.k.mem (linear s.k.procTable caller m)).source =
      BitVec.ofInt 32 (proc2pid caller))
    {pc' : MmPc} (hstep : mmStep img eax s.k s.pc = .ok (k', pc')) :
    ForkHeld img caller m s ⟨k', pc'⟩ := by
  rw [hpc] at hstep
  cases mmStep_outcome hstep with
  | receive hout =>
    cases hout with
    | interrupt hint => exact absurd (hs.noInt TASK_MM) hint
    | wait hsrc =>
      rcases hsrc with ⟨_, hnone⟩ | ⟨f, hf, _⟩
      · change (s.k.procTable TASK_MM).qSending = none at hnone
        rw [hhead] at hnone
        cases hnone
      · exact absurd hf.symm (proc2pid_ne_any f)
    | take f prev hsrc hfound hprev =>
      have hf : f = caller := by
        rcases hsrc with ⟨_, hq⟩ | hf
        · change (s.k.procTable TASK_MM).qSending = some f at hq
          rw [hhead] at hq
          exact (Option.some.inj hq).symm
        · exact absurd hf.symm (proc2pid_ne_any f)
      subst hf
      have hsending : (s.k.procTable f).pFlags = SENDING := hfound.fromFlags
      have hfirst : prev = none := by
        rcases hprev with ⟨hnone, _⟩ | ⟨_, hne, _⟩
        · exact hnone
        · exact absurd hhead hne
      subst hfirst
      refine ⟨rfl, ?_, ?_, fun l hl hout => ?_, fun p => ?_, fun p va => rfl, ?_⟩
      · change (dequeue s.k.procTable TASK_MM f none TASK_MM).pFlags = 0
        simp [dequeue, h.ne.symm, hready]
      · change (dequeue s.k.procTable TASK_MM f none f).pFlags = 0
        simp [dequeue, hsending]
      · -- only the link of the caller changes
        change Linked (links (dequeue s.k.procTable TASK_MM f none))
          (dequeue s.k.procTable TASK_MM f none f).qSending l
        have hhead' : (dequeue s.k.procTable TASK_MM f none f).qSending =
            (s.k.procTable f).qSending := by simp [dequeue, h.ne]
        rw [hhead']
        refine Linked.congr hl fun p hp => ?_
        have hpf : p ≠ f := by
          rintro rfl
          exact hout hp
        simp [links, dequeue, hpf]
      · change (dequeue s.k.procTable TASK_MM f none p).pFlags = FREE_SLOT ↔ _
        by_cases hp : p = f
        · subst hp
          simp [dequeue, hsending]
        · simp [dequeue, hp]
      · subst hmsg
        refine (readMessage_taken (linear_task hs.flat _) h.apart rfl).trans ?_
        rw [← hsource]

theorem ForkTakes.held (hs : SoundTable s.k.procTable) (h : ForkRefused img s caller m)
    (htakes : ForkTakes img caller m s s') : ForkHeld img caller m s s' := by
  cases htakes with
  | sent hpc htask hready hcall => exact forkHeld_of_sent hs.flat h hpc htask hready hcall
  | queued eax hpc hready hhead hmsg hsource hstep =>
    exact forkHeld_of_queued hs h eax hpc hready hhead hmsg hsource hstep

/-- It is a step of the system, in which no name is made. -/
theorem ForkTakes.step (h : ForkRefused img s caller m) (htakes : ForkTakes img caller m s s') :
    MmSysStep img (fun s => NamesFit img s.pc s.k) s s' := by
  cases htakes with
  | sent _ _ hready hcall => exact .user caller SEND _ m h.ne hready hcall
  | queued eax hpc hready _ _ _ hstep =>
    refine .task eax ?_ hready hstep
    rw [hpc]
    nofun

theorem toInt_proc2pid : ∀ p : Pid, (BitVec.ofInt 32 (proc2pid p)).toInt = proc2pid p := by
  decide

/-- The refusal begins. -/
theorem ForkHeld.refusing (hs : Sound s') (h : ForkRefused img s caller m)
    (hheld : ForkHeld img caller m s s') :
    ∃ l, InFront l ∧
      Refusing img caller m (readMessage s.k.mem (linear s.k.procTable caller m)).pid l
        (5 + Stage.weight .due) (ForkState.start s' caller) := by
  obtain ⟨l, hl, htaskOut, hcallerOut⟩ := h.queue
  have hchain := hheld.queue l hl hcallerOut
  have htask := (hs.table.tidy TASK_MM (occupied_of_ready hheld.task)).ready hheld.task
  have hcaller := (hs.table.tidy caller (occupied_of_ready hheld.ready)).ready hheld.ready
  have hstage : (ForkState.start s' caller).stage caller = .due := by
    change (if caller = caller then _ else _) = _
    rw [if_pos rfl, if_pos hheld.ready]
  have hmessage := hheld.message
  have hpid : (readMessage s'.k.mem img.mmMsg).pid =
      (readMessage s.k.mem (linear s.k.procTable caller m)).pid := by
    rw [hmessage]
    rfl
  have htype : mmType img s'.k = FORK := by
    refine Eq.trans ?_ h.type
    change (readMessage s'.k.mem img.mmMsg).type = _
    rw [hmessage]
  refine ⟨l, ⟨hl.nodup, htaskOut⟩, ?_⟩
  rw [← hstage]
  refine .asked ⟨hs.kReenter (by rw [hheld.pc]; nofun), hs.table.flat, h.ne, fun c hc => ?_,
    h.addr, ?_, hpid⟩ hheld.pc htask htype ?_
    ((findFreeSlot_congr hheld.free).trans h.full) ⟨?_, hchain, rfl⟩ rfl
  · by_contra hne
    exact hc (if_neg hne)
  · change Separate (linear s'.k.procTable caller m) _
    rw [hheld.segs]
    exact h.apart
  · have hzero : img.mmMsg + offSource = img.mmMsg := BitVec.add_zero _
    have hsource := congrArg (fun msg => msg.source.toInt) hmessage
    change (readWord s'.k.mem (img.mmMsg + offSource)).toInt = _
    rw [hzero]
    exact hsource.trans (toInt_proc2pid caller)
  · rw [hstage]
    exact ⟨hcaller, hs.table.noInt caller⟩

end Takes

/-! ## Whole runs -/

/-- In every order `fork` returns the word `w`. -/
theorem Refusing.comesTo {img : MmImage} {caller : Pid} {m : Addr} {w : BitVec 32} {l : List Pid}
    {n : ℕ} {s : MmState} (hl : InFront l)
    (h : Refusing img caller m w l n (ForkState.start s caller)) :
    ForkComesTo img caller m s (· = w.toInt) := by
  refine Inevitable.of_measure (I := Refusing img caller m w l)
    (fun n s' hI => .inr ⟨hI.refusalSafe hl, hI.more hl⟩) (fun n s' s'' hI hs => ?_) h
  rcases hI.step hl hs with ⟨msg, hreturned, hpid⟩ | hnext
  · exact .inl ⟨msg, hreturned, congrArg BitVec.toInt hpid⟩
  · exact .inr hnext

/-- What `fork` comes to holds of the word `w`. -/
theorem Refusing.of_comesTo {img : MmImage} {caller : Pid} {m : Addr} {w : BitVec 32}
    {l : List Pid} {n : ℕ} {s : MmState} {P : ℤ → Prop} (hl : InFront l)
    (h : Refusing img caller m w l n (ForkState.start s caller))
    (hcomes : ForkComesTo img caller m s P) : P w.toInt := by
  -- Until the caller has read its message the refusal goes on, and then what it has read stays.
  let I : ForkState → Prop := fun s' => (∃ n, Refusing img caller m w l n s') ∨
    ∃ msg read, s'.read caller = msg :: read ∧ msg.pid = w
  have hstep : ∀ s' s'', I s' → ForkStep img caller m s' s'' → I s'' := by
    intro s' s'' hI hs
    rcases hI with ⟨n', hI⟩ | ⟨msg, read, hread, hpid⟩
    · rcases hI.step hl hs with ⟨msg, hreturned, hpid⟩ | ⟨n'', _, hnext⟩
      · exact .inr ⟨msg, [], hreturned.returned.2, hpid⟩
      · exact .inl ⟨n'', hnext⟩
    · obtain ⟨more, hmore⟩ := hs.read_append caller
      exact .inr ⟨msg, read ++ more, by rw [hmore, hread, List.cons_append], hpid⟩
  obtain ⟨s', ⟨msg, hreturned, hP⟩, hI⟩ := hcomes.exists_goal hstep (.inl ⟨n, h⟩)
  rcases hI with ⟨n', hI⟩ | ⟨msg', read, hread, hpid⟩
  · exact absurd hreturned.returned.1 hI.not_away
  · rw [hreturned.returned.2] at hread
    obtain ⟨rfl, _⟩ := List.cons.inj hread
    rw [← hpid]
    exact hP

/-- From every state of every run whose names fit and in which a FORK comes to `task_mm`
    while there is no free slot: in every order of the calls nothing changes and `fork` returns the
    word that the caller's message had at `PID`; so it returns a negative number
    exactly when that word is one. -/
theorem forkRun_refused_iff {img : Image} {mimg : MmImage} {s s' : MmState} {caller : Pid}
    {m : Addr} (hrun : Reachable (MmBooted img) (MmSysStep mimg fun s => NamesFit mimg s.pc s.k) s)
    (h : ForkRefused mimg s caller m) (htakes : ForkTakes mimg caller m s s') :
    ForkComesTo mimg caller m s'
      (· = forkResult (readMessage s.k.mem (linear s.k.procTable caller m))) ∧
    (ForkComesTo mimg caller m s' (· < 0) ↔
      forkResult (readMessage s.k.mem (linear s.k.procTable caller m)) < 0) := by
  have hheld := htakes.held (mmRun_sound hrun).table h
  obtain ⟨l, hl, hrefusing⟩ := hheld.refusing (mmRun_sound (.step hrun (htakes.step h))) h
  refine ⟨hrefusing.comesTo hl, hrefusing.of_comesTo hl, fun hneg => ?_⟩
  refine (hrefusing.comesTo hl).mono fun s'' hgoal => ?_
  obtain ⟨msg, hreturned, heq⟩ := hgoal
  refine ⟨msg, hreturned, ?_⟩
  change forkResult msg < 0
  rw [heq]
  exact hneg

/-! ### INIT fills the table -/

/-- INIT has forked `n` times, each time from the same stack frame. -/
def forks : ℕ → List MmCall
  | 0 => []
  | n + 1 => forks n ++ [.write (requestMachine 3).mem, .task, .user INIT SEND 2 0x1000, .task,
      .task, .user (Fin.ofNat 35 (7 + n)) RECEIVE 2 0x1000, .task, .user INIT RECEIVE 2 0x1000]

/-- All 28 slots are taken, and INIT sends another FORK whose other words are 0. -/
theorem init_refused : ∃ s s' : MmState,
    Reachable (MmBooted sampleImage)
      (MmSysStep sampleMmImage fun s => NamesFit sampleMmImage s.pc s.k) s ∧
      ForkRefused sampleMmImage s INIT 0x1000 ∧ ForkTakes sampleMmImage INIT 0x1000 s s' ∧
      forkResult (readMessage s.k.mem (linear s.k.procTable INIT 0x1000)) = 0 := by
  obtain ⟨s, hs, hpc, htask, hready, htype, hfull, hqueue, hlinear, hresult, hcall⟩ :=
    MmState.exists_reachable_in sampleMmImage (requestMachine_booted 3)
      (fun s => NamesFit sampleMmImage s.pc s.k)
      (forks 28 ++ [.write (requestMachine 3).mem, .task])
      (fun s => s.pc = .dispatch ∧
        ((s.k.procTable TASK_MM).pFlags = RECEIVING ∧ (s.k.procTable TASK_MM).pRecvfrom = ANY ∧
          (s.k.procTable TASK_MM).msg = sampleMmImage.mmMsg) ∧
        (s.k.procTable INIT).pFlags = 0 ∧
        (readMessage s.k.mem (linear s.k.procTable INIT 0x1000)).type = FORK ∧
        findFreeSlot s.k.procTable = none ∧ (s.k.procTable INIT).qSending = none ∧
        linear s.k.procTable INIT 0x1000 = 0x1000 ∧
        forkResult (readMessage s.k.mem (linear s.k.procTable INIT 0x1000)) = 0 ∧
        (sysSendrec s.k SEND (proc2pid TASK_MM) 0x1000 INIT).isOk = true)
      (by decide +kernel)
  obtain ⟨k', hk'⟩ : ∃ k', sysSendrec s.k SEND (proc2pid TASK_MM) 0x1000 INIT = .ok k' := by
    cases hsend : sysSendrec s.k SEND (proc2pid TASK_MM) 0x1000 INIT with
    | ok k' => exact ⟨k', rfl⟩
    | error e =>
      rw [hsend] at hcall
      cases hcall
  have hempty : SendChain s.k.procTable INIT [] := hqueue
  refine ⟨s, ⟨k', s.pc⟩, hs, ⟨by decide, htype, hfull, ⟨[], hempty, nofun, nofun⟩, by decide, ?_⟩,
    .sent hpc htask hready hk', hresult⟩
  rw [hlinear]
  exact separate_of_apart (by decide)

theorem forkRun_refused_iff_init : ∃ s s' : MmState,
    ForkRefused sampleMmImage s INIT 0x1000 ∧ ForkTakes sampleMmImage INIT 0x1000 s s' ∧
      ForkComesTo sampleMmImage INIT 0x1000 s'
        (· = forkResult (readMessage s.k.mem (linear s.k.procTable INIT 0x1000))) ∧
      (ForkComesTo sampleMmImage INIT 0x1000 s' (· < 0) ↔
        forkResult (readMessage s.k.mem (linear s.k.procTable INIT 0x1000)) < 0) := by
  obtain ⟨s, s', hs, h, htakes, _⟩ := init_refused
  exact ⟨s, s', h, htakes, forkRun_refused_iff hs h htakes⟩

/-- INIT gets no child, and `fork` tells it that it is one. -/
theorem refused_fork_returns_zero : ∃ s s' : MmState,
    Reachable (MmBooted sampleImage)
      (MmSysStep sampleMmImage fun s => NamesFit sampleMmImage s.pc s.k) s ∧
      ForkRefused sampleMmImage s INIT 0x1000 ∧ ForkTakes sampleMmImage INIT 0x1000 s s' ∧
      ForkComesTo sampleMmImage INIT 0x1000 s' (· = 0) ∧
      ¬ ForkComesTo sampleMmImage INIT 0x1000 s' (· < 0) := by
  obtain ⟨s, s', hs, h, htakes, hzero⟩ := init_refused
  obtain ⟨l, hl, hrefusing⟩ := (htakes.held (mmRun_sound hs).table h).refusing
    (mmRun_sound (.step hs (htakes.step h))) h
  refine ⟨s, s', hs, h, htakes, (hrefusing.comesTo hl).mono fun s'' hgoal => ?_, fun hneg => ?_⟩
  · obtain ⟨msg, hreturned, heq⟩ := hgoal
    exact ⟨msg, hreturned, heq.trans hzero⟩
  · have hlt : forkResult (readMessage s.k.mem (linear s.k.procTable INIT 0x1000)) < 0 :=
      hrefusing.of_comesTo hl hneg
    rw [hzero] at hlt
    exact absurd hlt (by decide)

end SimpleOs
