import SimpleOs.Kernel.Deadlock
import SimpleOs.Lib.Transition

/-!
# The IPC invariant over whole runs

`IpcInv` is what every sequence of `msg_send` and `msg_receive` calls by
runnable processes maintains: the queues agree with the flags (`QueueInv`),
every slot has one of four shapes, no sender waits for a receiver that would
take its message, and the wait-for graph has no cycle. It is preserved by each
of the effects of `SendOutcome` and `ReceiveOutcome`, hence by every call that
returns, and it is enough for every assertion on the way (`msgSend_spec`,
`msgReceive_spec`).
-/

namespace SimpleOs

open ByteMem Pursuit Transition

/-! ## Shapes -/

/-- A process that is ready to run. -/
structure Process.Ready (p : Process) : Prop where
  flags : p.pFlags = 0
  msg : p.msg = 0
  recvfrom : p.pRecvfrom = NO_TASK
  sendto : p.pSendto = NO_TASK

/-- A process blocked in a send. -/
structure Process.InSend (p : Process) : Prop where
  flags : p.pFlags = SENDING
  msg : p.msg ≠ 0
  recvfrom : p.pRecvfrom = NO_TASK
  sendto : ∃ d : Pid, p.pSendto = proc2pid d

/-- A process blocked in a receive. -/
structure Process.InReceive (p : Process) : Prop where
  flags : p.pFlags = RECEIVING
  msg : p.msg ≠ 0
  recvfrom : p.pRecvfrom = ANY ∨ ∃ s : Pid, p.pRecvfrom = proc2pid s
  sendto : p.pSendto = NO_TASK

/-- A free slot, or one of the three shapes of a live process. -/
def Process.Shaped (p : Process) : Prop :=
  p.pFlags = FREE_SLOT ∨ p.Ready ∨ p.InSend ∨ p.InReceive

theorem Process.Shaped.ready {p : Process} (h : p.Shaped) (hf : p.pFlags = 0) : p.Ready := by
  rcases h with h | h | h | h
  · rw [hf] at h; exact absurd h (by decide)
  · exact h
  · have := h.flags; rw [hf] at this; exact absurd this (by decide)
  · have := h.flags; rw [hf] at this; exact absurd this (by decide)

theorem Process.Shaped.inSend {p : Process} (h : p.Shaped) (hs : Sending p) : p.InSend := by
  unfold Sending at hs
  rcases h with h | h | h | h
  · rw [h] at hs; exact absurd hs (by decide)
  · rw [h.flags] at hs; exact absurd hs (by decide)
  · exact h
  · rw [h.flags] at hs; exact absurd hs (by decide)

theorem Process.Shaped.inReceive {p : Process} (h : p.Shaped)
    (hr : p.pFlags &&& RECEIVING ≠ 0) : p.InReceive := by
  rcases h with h | h | h | h
  · rw [h] at hr; exact absurd hr (by decide)
  · rw [h.flags] at hr; exact absurd hr (by decide)
  · rw [h.flags] at hr; exact absurd hr (by decide)
  · exact h

/-- The IPC fields of a process. -/
structure SameIpc (p q : Process) : Prop where
  flags : q.pFlags = p.pFlags
  msg : q.msg = p.msg
  recvfrom : q.pRecvfrom = p.pRecvfrom
  sendto : q.pSendto = p.pSendto

theorem SameIpc.ready {p q : Process} (h : SameIpc p q) (hp : p.Ready) : q.Ready :=
  ⟨h.flags.trans hp.flags, h.msg.trans hp.msg, h.recvfrom.trans hp.recvfrom,
    h.sendto.trans hp.sendto⟩

theorem SameIpc.inSend {p q : Process} (h : SameIpc p q) (hp : p.InSend) : q.InSend :=
  ⟨h.flags.trans hp.flags, by rw [h.msg]; exact hp.msg, h.recvfrom.trans hp.recvfrom,
    by rw [h.sendto]; exact hp.sendto⟩

theorem SameIpc.inReceive {p q : Process} (h : SameIpc p q) (hp : p.InReceive) : q.InReceive :=
  ⟨h.flags.trans hp.flags, by rw [h.msg]; exact hp.msg, by rw [h.recvfrom]; exact hp.recvfrom,
    h.sendto.trans hp.sendto⟩

theorem SameIpc.shaped {p q : Process} (h : SameIpc p q) (hp : p.Shaped) : q.Shaped := by
  rcases hp with hp | hp | hp | hp
  · exact .inl (h.flags.trans hp)
  · exact .inr (.inl (h.ready hp))
  · exact .inr (.inr (.inl (h.inSend hp)))
  · exact .inr (.inr (.inr (h.inReceive hp)))

/-! ## The invariant -/

structure IpcInv (t : ProcTable) : Prop where
  shape : ∀ p, (t p).Shaped
  queues : QueueInv t
  /-- No missed rendezvous. -/
  meet : ∀ s d, SendsTo t s d → ¬ Accepts t d s
  acyclic : Acyclic (waitsFor t)
  noInt : ∀ p, (t p).hasIntMsg = 0
  flat : NativeFlat t

theorem IpcInv.msg_ne {t : ProcTable} (h : IpcInv t) (p : Pid) (hs : Sending (t p)) :
    (t p).msg ≠ 0 := ((h.shape p).inSend hs).msg

theorem not_sending_of_flags_zero {p : Process} (h : p.pFlags = 0) : ¬ Sending p := by
  simp [Sending, h]

theorem Quiescent.ipcInv {t : ProcTable} (h : Quiescent t) : IpcInv t := by
  refine ⟨fun p => ?_, h.queueInv, fun s d hs => ?_, h.acyclic, fun p => (h.idle p).hasIntMsg,
    h.flat⟩
  · have hp := h.idle p
    rcases hp.flags with hf | hf
    · exact .inr (.inl ⟨hf, hp.msg hf, hp.recvfrom hf, hp.sendto hf⟩)
    · exact .inl hf
  · exact absurd hs.1 (h.not_sending s)

/-! ## The rendezvous condition under the effects -/

theorem receiving_iff {p : Process} : p.pFlags &&& RECEIVING ≠ 0 ↔ p.pFlags.getLsbD 2 = true :=
  and_flag_ne_zero p.pFlags 2 (by omega)

theorem waiting_iff {p : Process} : p.pFlags &&& WAITING ≠ 0 ↔ p.pFlags.getLsbD 3 = true :=
  and_flag_ne_zero p.pFlags 3 (by omega)

theorem accepts_enqueue {t : ProcTable} {s d x y : Pid} {m : Addr} {tail : Option Pid} :
    Accepts (enqueue t s d m tail) x y ↔ Accepts t x y := by
  unfold Accepts
  rw [receiving_iff, receiving_iff]
  by_cases hx : x = s
  · simp [enqueue, hx]
  · simp [enqueue, hx]

theorem accepts_dequeue {t : ProcTable} {d f x y : Pid} {prev : Option Pid} :
    Accepts (dequeue t d f prev) x y ↔ Accepts t x y := by
  unfold Accepts
  rw [receiving_iff, receiving_iff]
  by_cases hx : x = f
  · simp [dequeue, hx]
  · simp [dequeue, hx]

theorem accepts_of_deliver {t : ProcTable} {d x y : Pid} (h : Accepts (deliver t d) x y) :
    Accepts t x y := by
  unfold Accepts at *
  rw [receiving_iff] at *
  by_cases hx : x = d
  · simp [deliver, hx] at h
  · simpa [deliver, hx] using h

theorem accepts_of_park {t : ProcTable} {w x y : Pid} {r : ℤ} {m : Addr}
    (h : Accepts (park t w r m) x y) :
    Accepts t x y ∨ (x = w ∧ (r = proc2pid y ∨ r = ANY)) := by
  unfold Accepts at *
  by_cases hx : x = w
  · right
    simp only [park, hx, if_true] at h
    exact ⟨hx, h.2⟩
  · left
    simpa [park, hx] using h

/-! ## The slots of the parties, and all others -/

theorem ready_deliver {t : ProcTable} {d : Pid} (hflags : (t d).pFlags &&& ~~~RECEIVING = 0)
    (hsendto : (t d).pSendto = NO_TASK) : (deliver t d d).Ready := by
  refine ⟨deliver_flags hflags, ?_, ?_, hsendto⟩
  · simp [deliver]
  · simp [deliver]

theorem inSend_enqueue {t : ProcTable} {s : Pid} (d : Pid) {m : Addr} (tail : Option Pid)
    (h : (t s).Ready) (hm : m ≠ 0) : (enqueue t s d m tail s).InSend := by
  refine ⟨enqueue_flags d m tail h.flags, ?_, h.recvfrom, d, ?_⟩
  · simpa [enqueue] using hm
  · simp [enqueue]

theorem ready_dequeue {t : ProcTable} {f : Pid} (d : Pid) (prev : Option Pid)
    (hflags : (t f).pFlags = SENDING) (hrecvfrom : (t f).pRecvfrom = NO_TASK) :
    (dequeue t d f prev f).Ready := by
  refine ⟨dequeue_flags d prev hflags, ?_, hrecvfrom, ?_⟩
  · simp [dequeue]
  · simp [dequeue]

theorem inReceive_park {t : ProcTable} {d : Pid} {r : ℤ} {m : Addr} (h : (t d).Ready) (hm : m ≠ 0)
    (hr : r = ANY ∨ ∃ s : Pid, r = proc2pid s) : (park t d r m d).InReceive := by
  refine ⟨park_flags r m h.flags, ?_, ?_, h.sendto⟩
  · simpa [park] using hm
  · simpa [park] using hr

theorem sameIpc_deliver (t : ProcTable) {d p : Pid} (hp : p ≠ d) :
    SameIpc (t p) (deliver t d p) := by
  refine ⟨?_, ?_, ?_, rfl⟩
  · simp [deliver, hp]
  · simp [deliver, hp]
  · simp [deliver, hp]

theorem sameIpc_enqueue (t : ProcTable) {x d p : Pid} (b : Addr) (tail : Option Pid) (hp : p ≠ x) :
    SameIpc (t p) (enqueue t x d b tail p) := by
  refine ⟨?_, ?_, rfl, ?_⟩
  · simp [enqueue, hp]
  · simp [enqueue, hp]
  · simp [enqueue, hp]

theorem sameIpc_park (t : ProcTable) {w p : Pid} (r : ℤ) (b : Addr) (hp : p ≠ w) :
    SameIpc (t p) (park t w r b p) := by
  refine ⟨?_, ?_, ?_, rfl⟩
  · simp [park, hp]
  · simp [park, hp]
  · simp [park, hp]

theorem sameIpc_dequeue (t : ProcTable) {d f p : Pid} (prev : Option Pid) (hp : p ≠ f) :
    SameIpc (t p) (dequeue t d f prev p) := by
  refine ⟨?_, ?_, rfl, ?_⟩
  · simp [dequeue, hp]
  · simp [dequeue, hp]
  · simp [dequeue, hp]

/-! ## Preservation -/

section Preservation

variable {k k' : Machine}

theorem SendOutcome.ipcInv {s d : Pid} {m : Addr} (h : SendOutcome k s d m k')
    (hI : IpcInv k.procTable) (hs : (k.procTable s).pFlags = 0) (hsd : s ≠ d) (hm : m ≠ 0)
    (hdead : deadlock k.procTable (proc2pid s) (proc2pid d) = .ok false) :
    IpcInv k'.procTable := by
  have hns := not_sending_of_flags_zero hs
  have hq := h.queueInv hI.queues hns
  have hacyc := h.acyclic hI.acyclic hI.queues.target hns hsd hdead
  cases h with
  | deliver hacc hmsg hflags hsendto =>
    refine ⟨fun p => ?_, hq, fun a b hab => ?_, hacyc, hI.noInt, hI.flat⟩
    · by_cases hp : p = d
      · subst hp
        exact .inr (.inl (ready_deliver hflags hsendto))
      · exact (sameIpc_deliver _ hp).shaped (hI.shape p)
    · intro hc
      exact hI.meet a b ((sameQueues_deliver _ d).sendsTo.mp hab) (accepts_of_deliver hc)
  | enqueue hacc hflags tail htail r =>
    refine ⟨fun p => ?_, hq, fun a b hab => ?_, hacyc, hI.noInt, hI.flat⟩
    · by_cases hp : p = s
      · subst hp
        exact .inr (.inr (.inl (inSend_enqueue d tail ((hI.shape p).ready hs) hm)))
      · exact (sameIpc_enqueue _ m tail hp).shaped (hI.shape p)
    · rw [accepts_enqueue]
      rcases sendsTo_enqueue.mp hab with ⟨rfl, rfl⟩ | ⟨_, hab⟩
      · exact hacc
      · exact hI.meet a b hab

theorem ReceiveOutcome.ipcInv {w : Pid} {src : ℤ} {m : Addr} (h : ReceiveOutcome k w src m k')
    (hI : IpcInv k.procTable) (hw : (k.procTable w).pFlags = 0) (hm : m ≠ 0) :
    IpcInv k'.procTable := by
  have hq := h.queueInv hI.queues
  have hacyc := h.acyclic hI.acyclic
  have hr := (hI.shape w).ready hw
  cases h with
  | interrupt hint => exact absurd (hI.noInt w) hint
  | take f prev hsrc hfound hprev =>
    refine ⟨fun p => ?_, hq, fun a b hab => ?_, hacyc, hI.noInt, hI.flat⟩
    · by_cases hp : p = f
      · subst hp
        exact .inr (.inl (ready_dequeue w prev hfound.fromFlags hfound.fromRecvfrom))
      · exact (sameIpc_dequeue _ prev hp).shaped (hI.shape p)
    · rw [accepts_dequeue]
      exact hI.meet a b (sendsTo_dequeue.mp hab).2
  | wait hsrc hflags r =>
    refine ⟨fun p => ?_, hq, fun a b hab => ?_, hacyc, hI.noInt, hI.flat⟩
    · by_cases hp : p = w
      · subst hp
        refine .inr (.inr (.inr (inReceive_park hr hm ?_)))
        rcases hsrc with hsrc | ⟨f, hsrc, _⟩
        · exact .inl hsrc.1
        · exact .inr ⟨f, hsrc⟩
      · exact (sameIpc_park _ src m hp).shaped (hI.shape p)
    · -- a sender that the receive accepts would have been taken
      have hab' := (sameQueues_park _ w src m).sendsTo.mp hab
      intro hc
      rcases accepts_of_park hc with hc | ⟨rfl, hr⟩
      · exact hI.meet a b hab' hc
      · rcases hsrc with ⟨_, hnone⟩ | ⟨f, rfl, hns⟩
        · obtain ⟨l, hl⟩ := hI.queues.queue b
          have hmem := (hl.mem_iff a).mpr hab'
          rw [hl.head_eq_none.mp hnone] at hmem
          exact absurd hmem List.not_mem_nil
        · rcases hr with hr | hr
          · exact hns (proc2pid_inj.mp hr ▸ hab')
          · exact absurd hr (proc2pid_ne_any f)

end Preservation

end SimpleOs
