import SimpleOs.Mm.Handshake

/-!
# The EXEC handshake

`do_execl` sets the saved `eip` of the caller, wherever the caller is in its
`send_recv`. If the caller is blocked in its receive, the reply releases it and
it continues at the entry point of the new image. If it has not come to its
receive yet, it goes on at the entry point all the same: the receive is never
made, and `task_mm` waits for it in the send of the reply.

* `execRun_entry`: in every run in which `do_execl` meets only callers that are
  blocked in their receive, a process at its entry point has had its reply and
  nobody is sending to it.
* `orphaned_reply`: a run in which `task_mm` is left behind.
-/

namespace SimpleOs

open ByteMem Transition

/-! ## `task_mm` -/

/-- `do_execl` meets a caller that is blocked in its receive. -/
def ExecParked (img : MmImage) (s : MmWorld) (k : Machine) : Prop :=
  s.pc = .dispatch → mmType img k = EXEC →
    ∀ c, mmSource img k = proc2pid c → Accepts k.procTable c TASK_MM

section Task

variable {img : MmImage} {s s' : MmWorld} {k' : Machine} {c d : Pid} {m : Addr}

/-- A sender whose slot and message nobody has written. -/
theorem Handshake.asking_frame (h : Handshake img s) {x : Pid} (hx : x ≠ TASK_MM)
    (hs : Sending (s.k.procTable x)) (hmsg : (k'.procTable x).msg = (s.k.procTable x).msg)
    (hlin : ∀ va, linear k'.procTable x va = linear s.k.procTable x va)
    (hkept : ∀ a, InBlockedBuffer s.k.procTable a → k'.mem a = s.k.mem a) :
    s.pos x = .awaiting ∧ (k'.procTable x).msg = s.buf x ∧
      (readMessage k'.mem (linear k'.procTable x (s.buf x))).source =
        BitVec.ofInt 32 (proc2pid x) := by
  obtain ⟨hpos, hbuf, hsrc⟩ := h.asking x hx hs
  refine ⟨hpos, hmsg.trans hbuf, ?_⟩
  rw [hlin, ← hsrc]
  refine congrArg Message.source (readMessage_frame fun a ha => hkept a ⟨x, hs, ?_⟩)
  rw [hbuf]
  exact ha

/-- The invariant after a step of `task_mm` that changes flags other than those of
    the IPC layer. -/
theorem Handshake.bookkeep (h : Handshake img s)
    (hsame : SameQueues s.k.procTable s'.k.procTable)
    (hint : ∀ p, (s'.k.procTable p).hasIntMsg = (s.k.procTable p).hasIntMsg)
    (hldt : ∀ p, (s'.k.procTable p).ldtData = (s.k.procTable p).ldtData)
    (hmsg : ∀ p, (s'.k.procTable p).msg = (s.k.procTable p).msg)
    (hrecv : (s'.k.procTable TASK_MM).pFlags &&& RECEIVING = 0)
    (hmm : ¬ Sending (s.k.procTable TASK_MM))
    (hwait : ∀ q, (s'.k.procTable q).pFlags &&& WAITING ≠ 0 → s.pos q ≠ .entry)
    (hkept : ∀ a, InBlockedBuffer s.k.procTable a → s'.k.mem a = s.k.mem a)
    (hpos : s'.pos = s.pos) (hbuf : s'.buf = s.buf)
    (hexecs : s'.execs = s.execs ∧ s'.consumed = s.consumed)
    (hpend : s'.pendingExec = s.pendingExec) (hat : AtPc img s') : Handshake img s' := by
  have hlin : ∀ p va, linear s'.k.procTable p va = linear s.k.procTable p va := by
    intro p va
    rw [linear, linear, hldt]
  refine ⟨h.sole.congr hsame hint (hldt _), ?_, fun x hx hs => ?_, fun hr => absurd hrecv hr,
    ?_, fun p hp hs => ?_, fun _ hs => ?_, hat, ?_⟩
  · rw [hpos]
    exact h.task
  · rw [hpos, hbuf]
    exact h.asking_frame hx ((hsame.sending x).mp hs) (hmsg x) (hlin x) hkept
  · rw [hpos]
    exact hwait
  · exact hmm ((hsame.sending _).mp hs.1)
  · exact hmm ((hsame.sending _).mp hs)
  · rw [hexecs.1, hexecs.2, hpend]
    exact h.execs

/-- `task_mm` sends to a process that is not at its entry point, or that is
    blocked in its receive. -/
theorem Handshake.send (h : Handshake img s) (k₁ : Machine)
    (htask : (s.k.procTable TASK_MM).pFlags = 0) (hk₁ : k₁.procTable = s.k.procTable)
    (hd : d ≠ TASK_MM) (he : SendEffect k₁ TASK_MM d m k') {pc' : MmPc}
    (hclear : s.pos d ≠ .entry ∨ Accepts s.k.procTable d TASK_MM)
    (hkept : ∀ a, InBlockedBuffer s.k.procTable a → k'.mem a = s.k.mem a)
    (hpend : s.pendingExec = if s.pos d = .entry then [d] else [])
    (hpend' : (s.afterSend s.k k' pc').pendingExec = []) (hpc' : pc' ≠ .dispatch)
    (hat : AtPc img (s.afterSend s.k k' pc')) : Handshake img (s.afterSend s.k k' pc') := by
  have hmm : ¬ Sending (s.k.procTable TASK_MM) := not_sending_of_flags_zero htask
  have hsole : SoleSender k'.procTable :=
    SoleSender.task_send (k := k₁) (hk₁ ▸ h.sole) (hk₁ ▸ hmm) hd he
  have hlin : ∀ p va, linear k'.procTable p va = linear s.k.procTable p va := by
    intro p va
    rw [he.linear_eq, hk₁]
  have hdel := mmDelivered_eq htask hk₁ he
  have hexecs : s.execs = s.consumed ++
      ((mmDelivered s.k k').map Event.dst).filter fun p => s.pos p = .entry := by
    rw [h.execs, hpend]
    rcases hdel with ⟨_, hdel⟩ | ⟨hacc, hdel⟩
    · rw [hdel]
      by_cases hx : s.pos d = .entry
      · simp [hx]
      · simp [hx]
    · rw [hdel, if_neg (hclear.resolve_right hacc)]
      rfl
  cases he with
  | delivered hacc hflags htable _ =>
    rw [hk₁] at hacc hflags htable
    have hsame := sameQueues_deliver s.k.procTable d
    have hzero : (k'.procTable d).pFlags = 0 := by
      rw [htable]
      exact deliver_flags hflags
    have hother : ∀ x, x ≠ d → SameIpc (s.k.procTable x) (k'.procTable x) := by
      intro x hx
      rw [htable]
      exact sameIpc_deliver _ hx
    have hsend : ∀ x, Sending (k'.procTable x) → Sending (s.k.procTable x) := by
      intro x hx
      rw [htable] at hx
      exact (hsame.sending x).mp hx
    refine ⟨hsole, h.task, fun x hx hs => ?_, fun hr => ?_, fun q hq => ?_, fun p _ hs => ?_,
      fun hp => absurd hp hpc', hat, ?_⟩
    · have hxd : x ≠ d := by
        intro hxd
        rw [MmWorld.afterSend, hxd, Sending, hzero] at hs
        exact hs (by decide)
      exact h.asking_frame hx (hsend x hs) (hother x hxd).msg (hlin x) hkept
    · rw [MmWorld.afterSend, (hother _ hd.symm).flags, htask] at hr
      exact absurd (by decide) hr
    · by_cases hqd : q = d
      · rw [MmWorld.afterSend, hqd, hzero] at hq
        exact absurd (by decide) hq
      · rw [MmWorld.afterSend, (hother q hqd).flags] at hq
        exact h.waiting q hq
    · exact hmm (hsend _ hs.1)
    · rw [hpend', List.append_nil]
      exact hexecs
  | queued hacc tail _ htable _ =>
    rw [hk₁] at hacc htable
    have hother : ∀ x, x ≠ TASK_MM → SameIpc (s.k.procTable x) (k'.procTable x) := by
      intro x hx
      rw [htable]
      exact sameIpc_enqueue _ _ tail hx
    have hself : (k'.procTable TASK_MM).pFlags = SENDING := by
      rw [htable]
      exact enqueue_flags _ _ tail htask
    refine ⟨hsole, h.task, fun x hx hs => ?_, fun hr => ?_, fun q hq => ?_, fun p hp hs => ?_,
      fun hp => absurd hp hpc', hat, ?_⟩
    · have hs' : Sending (s.k.procTable x) := by
        rw [Sending, ← (hother x hx).flags]
        exact hs
      exact h.asking_frame hx hs' (hother x hx).msg (hlin x) hkept
    · rw [MmWorld.afterSend, hself] at hr
      exact absurd (by decide) hr
    · by_cases hqm : q = TASK_MM
      · rw [hqm]
        exact h.task
      · rw [MmWorld.afterSend, (hother q hqm).flags] at hq
        exact h.waiting q hq
    · rw [MmWorld.afterSend, htable] at hs
      rcases sendsTo_enqueue.mp hs with hs | hs
      · exact (hclear.resolve_right hacc) (hs.2 ▸ hp)
      · exact hs.1 rfl
    · rw [hpend', List.append_nil]
      exact hexecs

/-- `task_mm` calls its receive. -/
theorem Handshake.receive (h : Handshake img s) (hpc : s.pc = .receive)
    (htask : (s.k.procTable TASK_MM).pFlags = 0)
    (hout : ∀ p, p ≠ TASK_MM → s.InCall p →
      ∀ a, InMessage (linear s.k.procTable p (s.buf p)) a → ¬ InTask img a)
    (hkept : ∀ a, InBlockedBuffer s.k.procTable a → k'.mem a = s.k.mem a)
    (he : ReceiveEffect (clearMmMsg img s.k) TASK_MM ANY img.mmMsg k') :
    Handshake img { s with k := k', pc := .dispatch } := by
  have hmm : ¬ Sending (s.k.procTable TASK_MM) := not_sending_of_flags_zero htask
  have hsole : SoleSender k'.procTable :=
    SoleSender.task_receive (k := clearMmMsg img s.k) h.sole hmm he
  have hlin : ∀ p va, linear k'.procTable p va = linear s.k.procTable p va := he.linear_eq
  have hexecs : s.execs = s.consumed := by
    rw [h.execs, MmWorld.pendingExec, hpc, List.append_nil]
  cases he with
  | taken f prev hsrc hfound hprev htable hmem =>
    have hne : f ≠ TASK_MM := by
      intro hf
      rw [hf] at hfound
      exact hmm hfound.sendsTo.1
    have hother : ∀ x, x ≠ f → SameIpc (s.k.procTable x) (k'.procTable x) := by
      intro x hx
      rw [htable]
      exact sameIpc_dequeue s.k.procTable prev hx
    have hfree : (k'.procTable f).pFlags = 0 := by
      rw [htable]
      exact dequeue_flags TASK_MM prev hfound.fromFlags
    obtain ⟨hfpos, hfmsg, hfsrc⟩ := h.asking f hne hfound.sendsTo.1
    have hsend : ∀ x, Sending (k'.procTable x) → x ≠ f ∧ Sending (s.k.procTable x) := by
      intro x hs
      have hxf : x ≠ f := by
        intro hxf
        rw [hxf] at hs
        exact not_sending_of_flags_zero hfree hs
      refine ⟨hxf, ?_⟩
      rw [Sending, ← (hother x hxf).flags]
      exact hs
    have htask' : (k'.procTable TASK_MM).pFlags = 0 := by
      rw [(hother _ hne.symm).flags]
      exact htask
    -- the request of `f` is in `mm_msg` now
    have hread : (readMessage k'.mem img.mmMsg).source = BitVec.ofInt 32 (proc2pid f) := by
      have hsep : Separate (linear s.k.procTable f (s.buf f)) img.mmMsg :=
        fun a ha hc => hout f hne (.inl hfpos) a ha (.inl hc)
      have hmsg : ((clearMmMsg img s.k).procTable f).msg = s.buf f := hfmsg
      rw [hmsg] at hmem
      rw [readMessage_taken (h.sole.linear_task img.mmMsg) hsep hmem]
      exact hfsrc
    refine ⟨hsole, h.task, fun x hx hs => ?_, fun hr => ?_, fun q hq => ?_, fun p _ hs => ?_,
      fun _ hs => ?_, fun _ => ?_, ?_⟩
    · obtain ⟨hxf, hs'⟩ := hsend x hs
      exact h.asking_frame hx hs' (hother x hxf).msg (hlin x) hkept
    · dsimp only at hr
      rw [htask'] at hr
      exact absurd (by decide) hr
    · by_cases hqf : q = f
      · dsimp only
        rw [hqf, hfpos]
        decide
      · dsimp only at hq
        rw [(hother q hqf).flags] at hq
        exact h.waiting q hq
    · exact hmm (hsend _ hs.1).2
    · exact hmm (hsend _ hs).2
    · refine ⟨f, hne, mmSource_of_message hread, .inl hfpos, ?_, ?_, ?_⟩
      · dsimp only
        rw [hfpos]
        decide
      · exact not_sending_of_flags_zero hfree
      · dsimp only
        rw [hfree]
        decide
    · exact hexecs.trans (List.append_nil _).symm
  | parked hsrc htable hmem =>
    have hsame : SameQueues s.k.procTable k'.procTable := by
      rw [htable]
      exact sameQueues_park _ TASK_MM _ _
    have hother : ∀ x, x ≠ TASK_MM → SameIpc (s.k.procTable x) (k'.procTable x) := by
      intro x hx
      rw [htable]
      exact sameIpc_park s.k.procTable _ _ hx
    have hself : (k'.procTable TASK_MM).pFlags = RECEIVING ∧
        (k'.procTable TASK_MM).msg = img.mmMsg := by
      rw [htable]
      simp [park, htask, clearMmMsg]
    refine ⟨hsole, h.task, fun x hx hs => ?_, fun _ => ⟨rfl, hself.2⟩, fun q hq => ?_,
      fun p _ hs => ?_, fun _ hs => ?_, fun hr => ?_, ?_⟩
    · exact h.asking_frame hx ((hsame.sending x).mp hs) (hother x hx).msg (hlin x) hkept
    · by_cases hqm : q = TASK_MM
      · rw [hqm]
        exact h.task
      · dsimp only at hq
        rw [(hother q hqm).flags] at hq
        exact h.waiting q hq
    · exact hmm ((hsame.sending _).mp hs.1)
    · exact hmm ((hsame.sending _).mp hs)
    · dsimp only at hr
      rw [hself.1] at hr
      exact absurd hr (by decide)
    · exact hexecs.trans (List.append_nil _).symm

/-- `do_fork` has filled the slot of the child. -/
theorem Handshake.forked (h : Handshake img s) (hc : InHand img s c)
    (hpc : s.pc = .dispatch) (htask : (s.k.procTable TASK_MM).pFlags = 0) {child : Pid}
    (hchild : child ≠ TASK_MM) (htype : mmType img s.k = FORK)
    (htable : k'.procTable = forkTable s.k.procTable c child)
    (hkept : ∀ a, InBlockedBuffer s.k.procTable a → k'.mem a = s.k.mem a) :
    Handshake img (s.afterDispatch img s.k k' (.forkSend (proc2pid c) child)) := by
  have hmm : ¬ Sending (s.k.procTable TASK_MM) := not_sending_of_flags_zero htask
  have hself : k'.procTable child = forkSlot s.k.procTable c child := by
    rw [htable, forkTable, Function.update_self]
  have hother : ∀ x, x ≠ child → k'.procTable x = s.k.procTable x := by
    intro x hx
    rw [htable, forkTable, Function.update_of_ne hx]
  have hsend : ∀ x, Sending (k'.procTable x) → x ≠ child ∧ Sending (s.k.procTable x) := by
    intro x hs
    have hx : x ≠ child := by
      intro hx
      rw [hx, hself] at hs
      exact hc.sending hs
    rw [hother x hx] at hs
    exact ⟨hx, hs⟩
  have hpos : ∀ q, s.pos q ≠ .entry → Function.update s.pos child (s.pos c) q ≠ .entry := by
    intro q hq
    by_cases hqc : q = child
    · rw [hqc, Function.update_self]
      exact hc.pos
    · rw [Function.update_of_ne hqc]
      exact hq
  rw [MmWorld.afterDispatch_fork hc.source htype]
  refine ⟨?_, hpos _ h.task, fun x hx hs => ?_, fun hr => ?_, fun q hq => ?_, fun p _ hs => ?_,
    fun hd => ?_, ⟨?_, fun q hq => ?_⟩, ?_⟩
  · dsimp only
    rw [htable]
    exact h.sole.fork hmm hc.ne hchild
  · obtain ⟨hxc, hs'⟩ := hsend x hs
    have hmsg : (k'.procTable x).msg = (s.k.procTable x).msg := by rw [hother x hxc]
    have hlin : ∀ va, linear k'.procTable x va = linear s.k.procTable x va := by
      intro va
      rw [linear, linear, hother x hxc]
    dsimp only
    rw [Function.update_of_ne hxc, Function.update_of_ne hxc]
    exact h.asking_frame hx hs' hmsg hlin hkept
  · dsimp only at hr
    rw [hother _ hchild.symm, htask] at hr
    exact absurd (by decide) hr
  · by_cases hqc : q = child
    · dsimp only at hq
      rw [hqc, hself] at hq
      exact absurd hc.waiting hq
    · dsimp only at hq
      rw [hother q hqc] at hq
      exact hpos q (h.waiting q hq)
  · exact hmm (hsend _ hs.1).2
  · exact absurd hd (by simp)
  · dsimp only
    rw [Function.update_self]
    exact hc.pos
  · have hqc : q = c := proc2pid_inj.mp hq.symm
    rw [hqc]
    exact hpos c hc.pos
  · have hexecs := h.execs
    unfold MmWorld.pendingExec at hexecs ⊢
    rw [hpc] at hexecs
    exact hexecs

/-- `do_execl` has set the entry point of a caller that is blocked in its
    receive. -/
theorem Handshake.executed (h : Handshake img s) (hc : InHand img s c)
    (hpc : s.pc = .dispatch) (htask : (s.k.procTable TASK_MM).pFlags = 0)
    (hacc : Accepts s.k.procTable c TASK_MM) (htype : mmType img s.k = EXEC)
    {entry eax : BitVec 32} (htable : k'.procTable = setEip s.k.procTable c entry)
    (hkept : ∀ a, InBlockedBuffer s.k.procTable a → k'.mem a = s.k.mem a) :
    Handshake img (s.afterDispatch img s.k k' (.reply (proc2pid c) eax)) := by
  have hmm : ¬ Sending (s.k.procTable TASK_MM) := not_sending_of_flags_zero htask
  have hsend : ∀ x, Sending (k'.procTable x) → Sending (s.k.procTable x) := by
    intro x hs
    rw [htable] at hs
    exact hs
  have hpos : ∀ q, q ≠ c → Function.update s.pos c .entry q = s.pos q :=
    fun q hq => Function.update_of_ne hq _ _
  rw [MmWorld.afterDispatch_exec hc.source htype]
  refine ⟨?_, ?_, fun x hx hs => ?_, fun hr => ?_, fun q hq => ?_, fun p _ hs => ?_,
    fun hd => ?_, fun q hq => .inr ?_, ?_⟩
  · dsimp only
    rw [htable]
    exact h.sole.congr (sameQueues_setEip _ c entry) (fun _ => rfl) rfl
  · dsimp only
    rw [hpos _ hc.ne.symm]
    exact h.task
  · have hs' := hsend x hs
    have hxc : x ≠ c := by
      intro hxc
      rw [hxc] at hs'
      exact hc.sending hs'
    have hmsg : (k'.procTable x).msg = (s.k.procTable x).msg := by
      rw [htable]
      rfl
    have hlin : ∀ va, linear k'.procTable x va = linear s.k.procTable x va := by
      intro va
      rw [htable]
      rfl
    dsimp only
    rw [hpos x hxc]
    exact h.asking_frame hx hs' hmsg hlin hkept
  · dsimp only at hr
    rw [htable] at hr
    have hr' : (s.k.procTable TASK_MM).pFlags &&& RECEIVING ≠ 0 := hr
    rw [htask] at hr'
    exact absurd (by decide) hr'
  · dsimp only at hq
    rw [htable] at hq
    have hqc : q ≠ c := by
      intro hqc
      rw [hqc] at hq
      exact hq hc.waiting
    dsimp only
    rw [hpos q hqc]
    exact h.waiting q hq
  · exact hmm (hsend _ hs.1)
  · exact absurd hd (by nofun)
  · have hqc : q = c := proc2pid_inj.mp hq.symm
    rw [hqc]
    dsimp only
    rw [htable]
    exact hacc
  · have hexecs : s.execs = s.consumed := by
      rw [h.execs, MmWorld.pendingExec, hpc, List.append_nil]
    have hone : (List.finRange 35).filter (fun q => proc2pid c = proc2pid q ∧
        Function.update s.pos c .entry q = .entry) = [c] := by
      refine filter_slots_eq_singleton fun x => ?_
      constructor
      · intro hx
        exact (proc2pid_inj.mp hx.1).symm
      · intro hx
        rw [hx, Function.update_self]
        exact ⟨rfl, rfl⟩
    unfold MmWorld.pendingExec
    dsimp only
    rw [hone, hexecs]

theorem hangingChild_parent {t : ProcTable} {pid : ℤ} {child : Pid}
    (h : hangingChild t pid = some child) : (t child).pParent = pid := by
  have := List.find?_some h
  simp only [decide_eq_true_eq] at this
  exact this.1

theorem exitScanFind_parent {t : ProcTable} {pid : ℤ} {i : ℕ} {j : Pid}
    (h : exitScanFind t pid i = some j) : (t j).pParent = pid := by
  have := List.find?_some h
  simp only [decide_eq_true_eq] at this
  exact this.2.1

/-- A request in hand is handled. -/
theorem Handshake.dispatch (h : Handshake img s) (hpc : s.pc = .dispatch)
    (htask : (s.k.procTable TASK_MM).pFlags = 0) (hparked : ExecParked img s s.k)
    (hkept : ∀ a, InBlockedBuffer s.k.procTable a → k'.mem a = s.k.mem a) {pc' : MmPc}
    (hout : MmOutcome img s.k .dispatch k' pc') :
    Handshake img (s.afterDispatch img s.k k' pc') := by
  have hmm : ¬ Sending (s.k.procTable TASK_MM) := not_sending_of_flags_zero htask
  have hzero : (s.k.procTable TASK_MM).pFlags &&& RECEIVING = 0 := by
    rw [htask]
    decide
  obtain ⟨c, hc⟩ : ∃ c, InHand img s c := by
    have hat := h.atPc
    unfold AtPc at hat
    rw [hpc] at hat
    exact hat hzero
  have hclear : Position.Clear s.pos (proc2pid c) := by
    intro q hq
    rw [← proc2pid_inj.mp hq]
    exact hc.pos
  have hsrc : ∀ {p : Pid}, mmSource img s.k = proc2pid p → p = c :=
    fun hp => proc2pid_inj.mp (hp.symm.trans hc.source)
  have hnone : s.pendingExec = [] := by
    rw [MmWorld.pendingExec, hpc]
  cases hout with
  | forkNone htype _ =>
    rw [MmWorld.afterDispatch_noSlot htype, hc.source]
    refine h.bookkeep ⟨fun _ => Iff.rfl, fun _ _ => rfl, fun _ => rfl, fun _ => rfl⟩ (fun _ => rfl)
      (fun _ => rfl) (fun _ => rfl) hzero hmm h.waiting (fun _ _ => rfl) rfl rfl ⟨rfl, rfl⟩ ?_
      fun q hq => .inl (hclear q hq)
    rw [hnone, MmWorld.pendingExec]
    dsimp only
    refine filter_slots_eq_nil fun q hq => ?_
    exact hclear q hq.1 hq.2
  | fork pid child used htype hpid hfree hchild =>
    obtain rfl := hsrc hpid
    refine h.forked hc hpc htask ?_ htype rfl hkept
    intro hx
    rw [hx] at hchild
    exact absurd hchild (by decide)
  | exitWaited pid parent htype hpid hparent hwait =>
    obtain rfl := hsrc hpid
    rw [MmWorld.afterDispatch_exit hpid htype]
    refine h.bookkeep (sameQueues_exitWaited _ pid parent _) (fun _ => rfl) (fun _ => rfl)
      (fun _ => rfl) ?_ hmm (fun q hq => ?_) (fun _ _ => rfl) rfl rfl ⟨rfl, rfl⟩ hnone.symm
      ⟨fun q hq => ?_, hclear⟩
    · by_contra hr
      exact (receiving_flags parent (· &&& ~~~WAITING) (by simp) (fun _ => rfl) TASK_MM).mp hr hzero
    · exact h.waiting q (waiting_flags parent (· &&& ~~~WAITING) (by simp) (fun _ => rfl) hq)
    · have hqp : q = parent := proc2pid_inj.mp (hq.symm.trans hparent)
      rw [hqp]
      exact h.waiting parent hwait
  | exitHanging pid parent htype hpid hparent hwait =>
    obtain rfl := hsrc hpid
    rw [MmWorld.afterDispatch_exit hpid htype]
    refine h.bookkeep (sameQueues_exitHanging _ pid parent _) (fun _ => rfl) (fun _ => rfl)
      (fun _ => rfl) ?_ hmm (fun q hq => ?_) (fun _ _ => rfl) rfl rfl ⟨rfl, rfl⟩ hnone.symm hclear
    · by_contra hr
      exact (receiving_flags parent (· ||| HANGING) (by simp) (fun _ => rfl) TASK_MM).mp hr hzero
    · exact h.waiting q (waiting_flags parent (· ||| HANGING) (by simp) (fun _ => rfl) hq)
  | waitHanging child htype hchild =>
    rw [MmWorld.afterDispatch_wait htype]
    refine h.bookkeep ⟨fun _ => Iff.rfl, fun _ _ => rfl, fun _ => rfl, fun _ => rfl⟩ (fun _ => rfl)
      (fun _ => rfl) (fun _ => rfl) hzero hmm h.waiting (fun _ _ => rfl) rfl rfl ⟨rfl, rfl⟩
      hnone.symm ⟨?_, trivial⟩
    dsimp only
    rw [hangingChild_parent hchild, hc.source]
    exact hclear
  | waitChildren pid htype hpid _ _ =>
    obtain rfl := hsrc hpid
    rw [MmWorld.afterDispatch_wait htype]
    refine h.bookkeep (sameQueues_setWaiting _ pid) (fun _ => rfl) (fun _ => rfl)
      (fun _ => rfl) ?_ hmm (fun q hq => ?_) (fun _ _ => rfl) rfl rfl ⟨rfl, rfl⟩ hnone.symm trivial
    · by_contra hr
      exact (receiving_flags pid (· ||| WAITING) (by simp) (fun _ => rfl) TASK_MM).mp hr hzero
    · by_cases hp : q = pid
      · rw [hp]
        exact hc.pos
      · exact h.waiting q (by simpa [setWaiting, hp] using hq)
  | waitChildless htype _ =>
    rw [MmWorld.afterDispatch_wait htype, hc.source]
    exact h.bookkeep ⟨fun _ => Iff.rfl, fun _ _ => rfl, fun _ => rfl, fun _ => rfl⟩ (fun _ => rfl)
      (fun _ => rfl) (fun _ => rfl) hzero hmm h.waiting (fun _ _ => rfl) rfl rfl ⟨rfl, rfl⟩
      hnone.symm hclear
  | exec pid mem used entry eax htype hpid =>
    obtain rfl := hsrc hpid
    exact h.executed hc hpc htask (hparked hpc htype pid hpid) htype rfl hkept

/-- `cleanup` has freed the slot of `proc`. -/
theorem Handshake.freed (h : Handshake img s) {proc : Pid} {ret : Resume}
    (hpc : s.pc = .cleanupFree proc ret) (htask : (s.k.procTable TASK_MM).pFlags = 0) {s' : MmWorld}
    (htable : s'.k.procTable = freeSlot s.k.procTable proc)
    (hmem : s'.k.mem = s.k.mem) (hpc' : s'.pc = resumeAt ret) (hpos : s'.pos = s.pos)
    (hbuf : s'.buf = s.buf) (hexecs : s'.execs = s.execs ∧ s'.consumed = s.consumed) :
    Handshake img s' := by
  have hmm : ¬ Sending (s.k.procTable TASK_MM) := not_sending_of_flags_zero htask
  have hret : ret.Clear s.pos := by
    have hat := h.atPc
    unfold AtPc at hat
    rw [hpc] at hat
    exact hat
  have hflags : ∀ x, (s'.k.procTable x).pFlags = FREE_SLOT ∨
      (s'.k.procTable x).pFlags = (s.k.procTable x).pFlags := by
    intro x
    rw [htable]
    by_cases hx : x = proc
    · exact .inl (if_pos hx)
    · exact .inr (if_neg hx)
  have hsend : ∀ x, Sending (s'.k.procTable x) → Sending (s.k.procTable x) := by
    intro x hs
    rcases hflags x with hx | hx
    · rw [Sending, hx] at hs
      exact absurd (by decide) hs
    · rw [Sending, hx] at hs
      exact hs
  refine ⟨?_, ?_, fun x hx hs => ?_, fun hr => ?_, fun q hq => ?_, fun p _ hs => ?_,
    fun _ hs => ?_, ?_, ?_⟩
  · rw [htable]
    exact h.sole.free hmm proc
  · rw [hpos]
    exact h.task
  · rw [hpos, hbuf, hmem, htable]
    exact h.asking x hx (hsend x hs)
  · rcases hflags TASK_MM with hx | hx
    · rw [hx] at hr
      exact absurd (by decide) hr
    · rw [hx, htask] at hr
      exact absurd (by decide) hr
  · rw [hpos]
    rcases hflags q with hx | hx
    · rw [hx] at hq
      exact absurd (by decide) hq
    · rw [hx] at hq
      exact h.waiting q hq
  · exact hmm (hsend _ hs.1)
  · exact hmm (hsend _ hs)
  · unfold AtPc
    rw [hpc', hpos]
    cases ret with
    | exit pid => exact hret
    | scan pid i => exact hret
    | wait => trivial
  · have hnone : s'.pendingExec = [] := by
      unfold MmWorld.pendingExec
      rw [hpc']
      cases ret with
      | exit pid => rfl
      | scan pid i => rfl
      | wait => rfl
    rw [hexecs.1, hexecs.2, hnone, h.execs, MmWorld.pendingExec, hpc]

/-- The loop of `do_exit` goes on. -/
theorem Handshake.scanned (h : Handshake img s) {pid : ℤ} {i : ℕ} (hpc : s.pc = .exitScan pid i)
    (htask : (s.k.procTable TASK_MM).pFlags = 0) {pc' : MmPc}
    (hout : MmOutcome img s.k (.exitScan pid i) k' pc') :
    Handshake img { s with k := k', pc := pc' } := by
  have hmm : ¬ Sending (s.k.procTable TASK_MM) := not_sending_of_flags_zero htask
  have hclear : Position.Clear s.pos pid := by
    have hat := h.atPc
    unfold AtPc at hat
    rw [hpc] at hat
    exact hat
  have hzero : (s.k.procTable TASK_MM).pFlags &&& RECEIVING = 0 := by
    rw [htask]
    decide
  have hnone : s.pendingExec = [] := by
    rw [MmWorld.pendingExec, hpc]
  cases hout with
  | scanFound _ _ j hfind =>
    refine h.bookkeep (sameQueues_clearWaiting _ INIT) (fun _ => rfl) (fun _ => rfl)
      (fun _ => rfl) ?_ hmm (fun q hq => ?_) (fun _ _ => rfl) rfl rfl ⟨rfl, rfl⟩ hnone.symm
      ⟨?_, hclear⟩
    · by_contra hr
      exact (receiving_flags INIT (· &&& ~~~WAITING) (by simp) (fun _ => rfl) TASK_MM).mp hr hzero
    · exact h.waiting q (waiting_flags INIT (· &&& ~~~WAITING) (by simp) (fun _ => rfl) hq)
    · have hparent : (s.k.procTable j).pParent = pid := exitScanFind_parent hfind
      have hkeep : (clearWaiting s.k.procTable INIT j).pParent = pid := hparent
      dsimp only
      rw [hkeep]
      exact hclear
  | scanDone _ _ _ =>
    refine h.bookkeep ⟨fun _ => Iff.rfl, fun _ _ => rfl, fun _ => rfl, fun _ => rfl⟩ (fun _ => rfl)
      (fun _ => rfl) (fun _ => rfl) hzero hmm h.waiting (fun _ _ => rfl) rfl rfl ⟨rfl, rfl⟩
      hnone.symm trivial

/-- One step of `task_mm`. -/
theorem Handshake.taskStep (h : Handshake img s) (htask : (s.k.procTable TASK_MM).pFlags = 0)
    (hparked : ExecParked img s s.k)
    (hapart : ∀ p, p ≠ TASK_MM → s.InCall p →
      ∀ a, InMessage (linear s.k.procTable p (s.buf p)) a → ¬ InTask img a)
    (hkept : ∀ a, InBlockedBuffer s.k.procTable a → k'.mem a = s.k.mem a) {pc' : MmPc}
    (hout : MmOutcome img s.k s.pc k' pc') : Handshake img (s.afterTask img s.k k' pc') := by
  have hat := h.atPc
  unfold AtPc at hat
  unfold MmWorld.afterTask
  generalize hpc : s.pc = pc at hout hat
  cases pc with
  | receive =>
    cases hout with
    | receive hrecv => exact h.receive hpc htask hapart hkept (hrecv.effect (h.sole.noInt TASK_MM))
  | dispatch => exact h.dispatch hpc htask hparked hkept hout
  | forkSend src child =>
    cases hout with
    | forkSend _ _ hsent =>
      have hreply : (s.afterSend s.k k' (.reply src 0)).pendingExec = [] := by
        rw [MmWorld.pendingExec, MmWorld.afterSend]
        exact filter_slots_eq_nil fun q hq => hat.2 q hq.1 hq.2
      have heff := hsent.outcome.effect
      refine h.send (forkMessage img s.k) htask rfl hsent.ne.symm heff (.inl hat.1) hkept ?_
        hreply (by simp) fun q hq => .inl (hat.2 q hq)
      rw [MmWorld.pendingExec, hpc, if_neg hat.1]
  | cleanupSend proc ret =>
    cases hout with
    | cleanupSend _ parent _ hparent hsent =>
      have hclear : s.pos parent ≠ .entry := hat.1 parent hparent
      have heff := hsent.outcome.effect
      refine h.send (cleanupMessage img s.k proc) htask rfl hsent.ne.symm heff (.inl hclear)
        hkept ?_ rfl (by simp) hat.2
      rw [MmWorld.pendingExec, hpc, if_neg hclear]
  | cleanupFree proc ret =>
    cases hout with
    | cleanupFree => exact h.freed hpc htask rfl rfl rfl rfl rfl ⟨rfl, rfl⟩
  | exitScan pid i => exact h.scanned hpc htask hout
  | waitNone pid =>
    cases hout with
    | waitNone p hsent =>
      have hclear : s.pos p ≠ .entry := hat p rfl
      have heff := hsent.outcome.effect
      refine h.send (waitMessage img s.k) htask rfl hsent.ne.symm heff (.inl hclear) hkept ?_
        rfl (by simp) trivial
      rw [MmWorld.pendingExec, hpc, if_neg hclear]
  | reply src retval =>
    cases hout with
    | reply p _ hsent =>
      have hone : s.pendingExec = if s.pos p = .entry then [p] else [] := by
        rw [MmWorld.pendingExec, hpc]
        dsimp only
        split_ifs with hp
        · refine filter_slots_eq_singleton fun q => ?_
          constructor
          · intro hq
            exact (proc2pid_inj.mp hq.1).symm
          · intro hq
            rw [hq]
            exact ⟨rfl, hp⟩
        · refine filter_slots_eq_nil fun q hq => hp ?_
          rw [proc2pid_inj.mp hq.1]
          exact hq.2
      exact h.send (replyMessage img s.k retval) htask rfl hsent.ne.symm
        hsent.outcome.effect (hat p rfl) hkept hone rfl (by simp) trivial

/-- One call of one party. -/
theorem Handshake.step (h : Handshake img s) (hs : WorldStep img (ExecParked img) s s') :
    Handshake img s' := by
  cases hs with
  | ask c m hq hc hready hpos hm hown hkept hcall =>
    exact (h.quiet hq).ask hc hready hpos hown hkept hcall
  | @await k _ c hq hc hready hpos hkept hcall =>
    refine (h.quiet hq).await hc hready ?_ hkept hcall
    dsimp only
    rw [hq.table]
    exact hq.outside c hc (.inl hpos)
  | @task k _ _ eax hq hC hready hkept hstep =>
    refine (h.quiet hq).taskStep hready hC (fun p hp hin => ?_) hkept (mmStep_outcome hstep)
    exact hq.outside_inCall hp hin

theorem WorldStart.handshake (h : WorldStart img s) : Handshake img s := by
  have hidle := fun p => h.quiescent.idle p
  have hno : ∀ p, ¬ Sending (s.k.procTable p) := h.quiescent.not_sending
  have hpos : ∀ p, s.pos p ≠ .entry := by
    intro p
    rw [h.pos]
    nofun
  refine ⟨⟨fun x _ hs => absurd hs (hno x), fun p _ => .inl (hidle p).queue,
    (hidle TASK_MM).next, fun x => ?_, ?_, fun p => (hidle p).hasIntMsg,
    h.quiescent.flat TASK_MM (by decide)⟩, hpos _, fun x _ hs => absurd hs (hno x), fun hr => ?_,
    fun q _ => hpos q, fun p hp => absurd hp (hpos p), fun _ => hno _, ?_, ?_⟩
  · rw [(hidle x).next]
    nofun
  · rw [(hidle TASK_MM).queue]
    nofun
  · rw [h.task] at hr
    exact absurd (by decide) hr
  · unfold AtPc
    rw [h.pc]
    trivial
  · rw [h.execs, h.consumed, MmWorld.pendingExec, h.pc]
    rfl

end Task

/-! ## Whole runs -/

/-- In every state of every run in which `do_execl` meets only callers that are
    blocked in their receive: a process that continues at its entry point has
    received the reply to each of its EXEC requests, its queue is empty, and
    `task_mm` is not sending to it. -/
theorem execRun_entry {img : MmImage} {s : MmWorld}
    (h : Reachable (WorldStart img) (WorldStep img (ExecParked img)) s) : EntrySafe s := by
  have hinv : Handshake img s :=
    h.invariant (fun _ h0 => h0.handshake) fun _ _ hI hs => hI.step hs
  exact hinv.entrySafe

/-! ### Two runs

INIT sends an EXEC request, which `task_mm` takes at once. In the first run INIT
comes to its receive before `do_execl` runs, in the second it does not. -/

/-- `task_mm` has the request. -/
def execAsked : MmWorld := ((bootWorld 7).task sampleMmImage).ask 3 0x1000

/-- INIT has received the reply at its entry point. -/
def execReplied : MmWorld := ((execAsked.await 3).task sampleMmImage).task sampleMmImage

/-- `task_mm` is blocked in the send of the reply. -/
def execOrphaned : MmWorld := (execAsked.task sampleMmImage).task sampleMmImage

theorem execAsked_reachable (C : MmWorld → Machine → Prop)
    (hC : C (bootWorld 7) (bootWorld 7).k) :
    Reachable (WorldStart sampleMmImage) (WorldStep sampleMmImage C) execAsked := by
  have hidle : ∀ p, p ≠ TASK_MM → ((bootWorld 7).task sampleMmImage).InCall p →
      linear ((bootWorld 7).task sampleMmImage).k.procTable p 0x1000 = 0x1000 := by decide
  have hboot : ∀ p, p ≠ TASK_MM → (bootWorld 7).InCall p →
      linear (bootWorld 7).k.procTable p 0x1000 = 0x1000 := by decide
  refine .step (.step (.init (bootWorld_start 7)) (.task 0 (.refl hboot) hC rfl ?_ rfl))
    (.ask 3 0x1000 (.refl hidle) (by decide) rfl (by decide) (by decide) ?_ ?_ rfl)
  · exact kept_of_no_sender (by decide)
  · exact fun a ha => sampleMessage_apart (by decide) ha
  · exact kept_of_no_sender (by decide)

theorem execRun_entry_replied :
    execReplied.pos 3 = .entry ∧ (execReplied.k.procTable 3).pFlags = 0 ∧
      execReplied.execs = [3] ∧ EntrySafe execReplied := by
  have hasked : Reachable (WorldStart sampleMmImage)
      (WorldStep sampleMmImage (ExecParked sampleMmImage)) execAsked :=
    execAsked_reachable _ fun hpc => absurd hpc (by nofun)
  have hcall : ∀ p, p ≠ TASK_MM → execAsked.InCall p →
      linear execAsked.k.procTable p (execAsked.buf p) = 0x1000 := by decide
  have hcall' : ∀ p, p ≠ TASK_MM → (execAsked.await 3).InCall p →
      linear (execAsked.await 3).k.procTable p ((execAsked.await 3).buf p) = 0x1000 := by decide
  have hcall'' : ∀ p, p ≠ TASK_MM → ((execAsked.await 3).task sampleMmImage).InCall p →
      linear ((execAsked.await 3).task sampleMmImage).k.procTable p
        (((execAsked.await 3).task sampleMmImage).buf p) = 0x1000 := by decide
  have hparked : ExecParked sampleMmImage (execAsked.await 3) (execAsked.await 3).k := by
    intro _ _ c hc
    have hsrc : mmSource sampleMmImage (execAsked.await 3).k = proc2pid 3 := by decide
    obtain rfl := proc2pid_inj.mp (hc.symm.trans hsrc)
    decide
  refine ⟨by decide, by decide, by decide, execRun_entry (.step (.step (.step hasked
    (.await 3 (.refl hcall) (by decide) rfl rfl ?_ rfl))
    (.task 0 (.refl hcall') hparked rfl ?_ rfl))
    (.task 0 (.refl hcall'') (fun hpc => absurd hpc (by decide)) rfl ?_ rfl))⟩
  · exact kept_of_no_sender (by decide)
  · exact kept_of_no_sender (by decide)
  · exact kept_of_no_sender (by decide)

/-- INIT runs on at its entry point, with `task_mm` in its queue. -/
theorem orphaned_reply :
    ∃ s, Reachable (WorldStart sampleMmImage) (WorldStep sampleMmImage fun _ _ => True) s ∧
      SendsTo s.k.procTable TASK_MM 3 ∧ ¬ EntrySafe s := by
  have hcall : ∀ p, p ≠ TASK_MM → execAsked.InCall p →
      linear execAsked.k.procTable p (execAsked.buf p) = 0x1000 := by decide
  have hcall' : ∀ p, p ≠ TASK_MM → (execAsked.task sampleMmImage).InCall p →
      linear (execAsked.task sampleMmImage).k.procTable p
        ((execAsked.task sampleMmImage).buf p) = 0x1000 := by decide
  refine ⟨execOrphaned, .step (.step (execAsked_reachable _ trivial)
    (.task 0 (.refl hcall) trivial rfl ?_ rfl)) (.task 0 (.refl hcall') trivial rfl ?_ rfl),
    by decide, fun h => ?_⟩
  · exact kept_of_no_sender (by decide)
  · exact kept_of_no_sender (by decide)
  · have hqueue := (h 3 (by decide) (by decide)).1
    exact absurd hqueue (by decide)

end SimpleOs
