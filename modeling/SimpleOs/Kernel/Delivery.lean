import SimpleOs.Kernel.IpcRuns
import SimpleOs.Kernel.Messages

/-!
# Exactly-once, in-order delivery

A run of `sys_sendrec` calls is observed from outside: which message a process
passes to a send, which message lies in the buffer of a receiver when its
receive completes, whose send that completed, and in which order the senders
that wait for a receiver have blocked. The observer looks at the flags before
and after a call and at memory, never at the queues.

A message reaches its receiver on one of three ways: copied by the sender into
the buffer of a waiting receiver, or copied by the receiver from the head or
from the middle of its queue. The invariant `TraceInv` is the same for all of
them: what has been sent is what has been received, followed by the message in
the buffer of the sender if it is still blocked.

* `CallWrites`, `sysSendrec_writes`: the memory a call writes.
* `traced_delivery`: the streams between any two processes.
* `overlapping_delivery`: the copy to a waiting receiver runs forward, so a
  buffer that begins inside the sender's receives something else.
-/

namespace SimpleOs

open ByteMem Transition

/-! ## The memory a call writes -/

/-- A receive of `w` from `src` finds a waiting sender. -/
def Finds (t : ProcTable) (w : Pid) (src : ℤ) : Prop :=
  (src = ANY ∧ (t w).qSending ≠ none) ∨ ∃ f, src = proc2pid f ∧ SendsTo t f w

/-- The addresses that a call of `p` writes: the source of its message, and the
    buffer of the receiver if a message is transferred. -/
def CallWrites (k : Machine) (p : Pid) (function srcDest : ℤ) (m a : Addr) : Prop :=
  InBlock (linear k.procTable p m) 4 a ∨
  (function = SEND ∧ ∃ d, srcDest = proc2pid d ∧ Accepts k.procTable d p ∧
    InMessage (linear k.procTable d (k.procTable d).msg) a) ∨
  (function = RECEIVE ∧ Finds k.procTable p srcDest ∧ InMessage (linear k.procTable p m) a)

/-- Nothing else changes. -/
theorem sysSendrec_writes {k k' : Machine} {p : Pid} {function srcDest : ℤ} {m a : Addr}
    (hint : (k.procTable p).hasIntMsg = 0) (h : sysSendrec k function srcDest m p = .ok k')
    (ha : ¬ CallWrites k p function srcDest m a) : k'.mem a = k.mem a := by
  have hstamp : (stampSource k p m).mem a = k.mem a := stampSource_out fun hc => ha (.inl hc)
  rcases sysSendrec_outcome h with ⟨d, hf, hd, _, _, hout⟩ | ⟨hf, _, hout⟩
  · cases hout with
    | deliver hacc =>
      refine (copy_out fun hc => ha (.inr (.inl ⟨hf, d, hd, hacc, hc⟩))).trans hstamp
    | enqueue => exact hstamp
  · cases hout with
    | interrupt hc => exact absurd hint hc
    | take f prev hsrc hfound _ =>
      have hfinds : Finds k.procTable p srcDest := by
        rcases hsrc with hsrc | hsrc
        · exact .inl ⟨hsrc.1, hfound.queue⟩
        · exact .inr ⟨f, hsrc, hfound.sendsTo⟩
      exact (copy_out fun hc => ha (.inr (.inr ⟨hf, hfinds, hc⟩))).trans hstamp
    | wait => exact hstamp

/-- `a` lies in the buffer of a blocked sender. -/
def InBlockedBuffer (t : ProcTable) (a : Addr) : Prop :=
  ∃ b, Sending (t b) ∧ InMessage (linear t b (t b).msg) a

/-- The call writes no buffer of a blocked sender. -/
def Spares (k : Machine) (p : Pid) (function srcDest : ℤ) (m : Addr) : Prop :=
  ∀ a, CallWrites k p function srcDest m a → ¬ InBlockedBuffer k.procTable a

/-! ## The observer -/

/-- A message that went from `src` to `dst`. -/
structure Event where
  src : Pid
  dst : Pid
  msg : Message
  deriving DecidableEq

/-- The messages of one ordered pair of processes. -/
def between (l : List Event) (s d : Pid) : List Message :=
  (l.filter fun e => e.src = s ∧ e.dst = d).map Event.msg

/-- A machine with its history: the messages passed to sends, the messages that
    completed receives have taken, and for each process the senders blocked on
    it, the longest first. -/
structure Traced where
  k : Machine
  sent : List Event
  received : List Event
  waiting : Pid → List Pid

/-- The message that `s` passes to a send from the buffer `m`. -/
def passed (k : Machine) (s : Pid) (m : Addr) : Message :=
  { readMessage k.mem (linear k.procTable s m) with source := BitVec.ofInt 32 (proc2pid s) }

/-- The receive that a send of `s` to `d` has completed, if any. -/
def sendReceived (k k' : Machine) (s d : Pid) : List Event :=
  if (k.procTable d).pFlags &&& RECEIVING ≠ 0 ∧ (k'.procTable d).pFlags &&& RECEIVING = 0 then
    [⟨s, d, readMessage k'.mem (linear k.procTable d (k.procTable d).msg)⟩]
  else []

/-- The processes whose send has completed. -/
def completed (t t' : ProcTable) : List Pid :=
  (List.finRange 35).filter fun s => Sending (t s) ∧ ¬ Sending (t' s)

/-- The messages that a receive of `w` into `m` has taken. -/
def receiveReceived (k k' : Machine) (w : Pid) (m : Addr) : List Event :=
  (completed k.procTable k'.procTable).map fun f =>
    ⟨f, w, readMessage k'.mem (linear k.procTable w m)⟩

/-- Those still blocked keep their order, those newly blocked come last. -/
def order (t t' : ProcTable) (waiting : Pid → List Pid) : Pid → List Pid := fun d =>
  (waiting d).filter (fun s => SendsTo t' s d) ++
    (List.finRange 35).filter fun s => SendsTo t' s d ∧ ¬ SendsTo t s d

/-- One step of an observed run: a send, under the further condition `A`; a
    receive; or a change of memory by the processes themselves. No step writes
    the buffer of a blocked sender. -/
inductive TraceStep (A : Machine → Pid → Pid → Addr → Prop) (x : Traced) : Traced → Prop
  | send {k' : Machine} (s d : Pid) (m : Addr) (hs : (x.k.procTable s).pFlags = 0) (hsd : s ≠ d)
      (hm : m ≠ 0) (hspares : Spares x.k s SEND (proc2pid d) m) (hA : A x.k s d m)
      (h : sysSendrec x.k SEND (proc2pid d) m s = .ok k') :
      TraceStep A x
        { k := k'
          sent := x.sent ++ [⟨s, d, passed x.k s m⟩]
          received := x.received ++ sendReceived x.k k' s d
          waiting := order x.k.procTable k'.procTable x.waiting }
  | receive {k' : Machine} (w : Pid) (src : ℤ) (m : Addr) (hw : (x.k.procTable w).pFlags = 0)
      (hsrc : src = ANY ∨ ∃ f : Pid, f ≠ w ∧ src = proc2pid f) (hm : m ≠ 0)
      (hspares : Spares x.k w RECEIVE src m)
      (h : sysSendrec x.k RECEIVE src m w = .ok k') :
      TraceStep A x
        { k := k'
          sent := x.sent
          received := x.received ++ receiveReceived x.k k' w m
          waiting := order x.k.procTable k'.procTable x.waiting }
  | compute (mem : Mem) (ready : Pid)
      (hspares : ∀ a, InBlockedBuffer x.k.procTable a → mem a = x.k.mem a) :
      TraceStep A x { x with k := { x.k with mem := mem, readyProcess := ready } }

/-- Any processes, none of them blocked, and nothing sent yet. -/
structure TraceStart (x : Traced) : Prop where
  quiescent : Quiescent x.k.procTable
  kReenter : x.k.kReenter = 0
  sent : x.sent = []
  received : x.received = []
  waiting : x.waiting = fun _ => []

/-- A waiting receiver's buffer does not begin inside the sender's message. -/
def DirectApart (k : Machine) (s d : Pid) (m : Addr) : Prop :=
  Accepts k.procTable d s →
    NoForwardOverlap sizeofMessage (linear k.procTable d (k.procTable d).msg)
      (linear k.procTable s m)

/-! ## The invariant -/

/-- The message of `s` that `d` has yet to take. -/
def pending (k : Machine) (s d : Pid) : List Message :=
  if SendsTo k.procTable s d then
    [readMessage k.mem (linear k.procTable s (k.procTable s).msg)]
  else []

structure TraceInv (x : Traced) : Prop where
  ipc : IpcInv x.k.procTable
  kReenter : x.k.kReenter = 0
  stream : ∀ s d, between x.sent s d = between x.received s d ++ pending x.k s d
  source : ∀ e ∈ x.sent, e.msg.source = BitVec.ofInt 32 (proc2pid e.src)
  queue : ∀ d, IsQueue x.k.procTable d (x.waiting d)

theorem between_append (l l' : List Event) (s d : Pid) :
    between (l ++ l') s d = between l s d ++ between l' s d := by
  simp [between]

theorem between_nil (s d : Pid) : between [] s d = [] := rfl

theorem between_self (s d : Pid) (m : Message) : between [⟨s, d, m⟩] s d = [m] := by
  simp [between]

theorem between_eq_nil {l : List Event} {s d : Pid} (h : ∀ e ∈ l, ¬ (e.src = s ∧ e.dst = d)) :
    between l s d = [] := by
  rw [between, List.map_eq_nil_iff, List.filter_eq_nil_iff]
  intro e he
  simpa using h e he

theorem between_other {e : Event} {s d : Pid} (h : ¬ (e.src = s ∧ e.dst = d)) :
    between [e] s d = [] := by
  apply between_eq_nil
  intro x hx
  rw [List.mem_singleton] at hx
  rwa [hx]

theorem TraceStart.inv {x : Traced} (h : TraceStart x) : TraceInv x := by
  have hns : ∀ s d, ¬ SendsTo x.k.procTable s d := fun s d hs => h.quiescent.not_sending s hs.1
  refine ⟨h.quiescent.ipcInv, h.kReenter, fun s d => ?_, fun e he => ?_, fun d => ?_⟩
  · simp [h.sent, h.received, pending, hns, between_nil]
  · rw [h.sent] at he
    exact absurd he List.not_mem_nil
  · rw [h.waiting]
    exact h.quiescent.isQueue d

/-! ### Memory of the blocked senders -/

/-- The pending message of `s` is the same before and after a step in which `s`
    stays in the same send and its buffer is not written. -/
theorem pending_congr {k k' : Machine} {s d : Pid}
    (hs : SendsTo k'.procTable s d ↔ SendsTo k.procTable s d)
    (hmsg : SendsTo k.procTable s d → (k'.procTable s).msg = (k.procTable s).msg)
    (hldt : (k'.procTable s).ldtData = (k.procTable s).ldtData)
    (hmem : ∀ a, InBlockedBuffer k.procTable a → k'.mem a = k.mem a) :
    pending k' s d = pending k s d := by
  unfold pending
  by_cases h : SendsTo k.procTable s d
  · rw [if_pos h, if_pos (hs.mpr h), hmsg h]
    have hlin : ∀ va, linear k'.procTable s va = linear k.procTable s va := fun va => by
      rw [linear, linear, hldt]
    rw [hlin, readMessage_frame fun a ha => hmem a ⟨s, h.1, ha⟩]
  · rw [if_neg h, if_neg fun hc => h (hs.mp hc)]

/-! ### The order of the waiting senders -/

/-- The slots with a property that one slot has. -/
theorem filter_slots_eq_singleton {P : Pid → Prop} [DecidablePred P] {s : Pid}
    (h : ∀ x, P x ↔ x = s) : (List.finRange 35).filter (fun x => P x) = [s] := by
  have hcount : (List.finRange 35).count s = 1 :=
    List.count_eq_one_of_mem (List.nodup_finRange 35) (List.mem_finRange s)
  have hfil : (List.finRange 35).filter (fun x => P x) = (List.finRange 35).filter (· == s) := by
    apply List.filter_congr
    intro x _
    rw [beq_eq_decide]
    exact decide_eq_decide.mpr (h x)
  rw [hfil, List.filter_beq, hcount, List.replicate_one]

theorem filter_slots_eq_nil {P : Pid → Prop} [DecidablePred P] (h : ∀ x, ¬ P x) :
    (List.finRange 35).filter (fun x => P x) = [] := by
  rw [List.filter_eq_nil_iff]
  intro x _
  simpa using h x

theorem order_same {t t' : ProcTable} {waiting : Pid → List Pid} {d : Pid}
    (hq : IsQueue t d (waiting d)) (h : ∀ s, SendsTo t' s d ↔ SendsTo t s d) :
    order t t' waiting d = waiting d := by
  have hold : (waiting d).filter (fun s => SendsTo t' s d) = waiting d := by
    rw [List.filter_eq_self]
    intro s hs
    simpa [h s] using (hq.mem_iff s).mp hs
  rw [order, hold, filter_slots_eq_nil, List.append_nil]
  intro s hs
  exact hs.2 ((h s).mp hs.1)

theorem order_enqueue {t : ProcTable} {waiting : Pid → List Pid} {s d : Pid} (m : Addr)
    (tail : Option Pid) (hq : IsQueue t d (waiting d)) (hs : ¬ Sending (t s)) :
    order t (enqueue t s d m tail) waiting d = waiting d ++ [s] := by
  have hne : ∀ x, SendsTo t x d → x ≠ s := by
    intro x hx hc
    exact hs (hc ▸ hx.1)
  have hold : (waiting d).filter (fun x => SendsTo (enqueue t s d m tail) x d) = waiting d := by
    rw [List.filter_eq_self]
    intro x hx
    have hx' := (hq.mem_iff x).mp hx
    simp only [decide_eq_true_eq]
    exact sendsTo_enqueue.mpr (.inr ⟨hne x hx', hx'⟩)
  rw [order, hold, filter_slots_eq_singleton (s := s)]
  intro x
  rw [sendsTo_enqueue]
  constructor
  · intro h
    rcases h with ⟨h | h, hnot⟩
    · exact h.1
    · exact absurd h.2 hnot
  · intro h
    subst h
    exact ⟨.inl ⟨rfl, rfl⟩, fun hc => hs hc.1⟩

theorem order_dequeue {t : ProcTable} {waiting : Pid → List Pid} {d f : Pid} {prev : Option Pid}
    {l₁ l₂ : List Pid} (hq : IsQueue t d (waiting d)) (hl : waiting d = l₁ ++ f :: l₂) :
    order t (dequeue t d f prev) waiting d = l₁ ++ l₂ := by
  have hsend : ∀ x ∈ waiting d, (SendsTo (dequeue t d f prev) x d ↔ x ≠ f) := by
    intro x hx
    rw [sendsTo_dequeue]
    exact and_iff_left ((hq.mem_iff x).mp hx)
  have hnd := hq.nodup
  rw [hl, List.nodup_append, List.nodup_cons] at hnd
  have hold : (waiting d).filter (fun x => SendsTo (dequeue t d f prev) x d) = l₁ ++ l₂ := by
    have hne : (waiting d).filter (fun x => SendsTo (dequeue t d f prev) x d) =
        (waiting d).filter (fun x => x ≠ f) := by
      apply List.filter_congr
      intro x hx
      exact decide_eq_decide.mpr (hsend x hx)
    have h₁ : l₁.filter (fun x => x ≠ f) = l₁ := by
      rw [List.filter_eq_self]
      intro x hx
      simpa using hnd.2.2 x hx f List.mem_cons_self
    have h₂ : l₂.filter (fun x => x ≠ f) = l₂ := by
      rw [List.filter_eq_self]
      intro x hx
      have : x ≠ f := fun hc => hnd.2.1.1 (hc ▸ hx)
      simpa using this
    rw [hne, hl, List.filter_append, List.filter_cons_of_neg (by simp), h₁, h₂]
  rw [order, hold, filter_slots_eq_nil, List.append_nil]
  intro x hx
  exact hx.2 (sendsTo_dequeue.mp hx.1).2

/-! ## A send -/

section Send

variable {k k' : Machine} {s d : Pid} {m : Addr}

/-- A send to a waiting receiver completes its receive, with the message passed. -/
theorem sendReceived_deliver (hA : DirectApart k s d m) (hacc : Accepts k.procTable d s)
    (hflags : (k.procTable d).pFlags &&& ~~~RECEIVING = 0)
    (htable : k'.procTable = deliver k.procTable d)
    (hmem : k'.mem = pAsmMemcpy (stampSource k s m).mem
      (linear k.procTable d (k.procTable d).msg) (linear k.procTable s m) sizeofMessage) :
    sendReceived k k' s d = [⟨s, d, passed k s m⟩] := by
  have hafter : (k'.procTable d).pFlags &&& RECEIVING = 0 := by
    have : (k'.procTable d).pFlags = 0 := by
      rw [htable]
      exact deliver_flags hflags
    rw [this]
    decide
  rw [sendReceived, if_pos ⟨hacc.1, hafter⟩, hmem, readMessage_copy (hA hacc),
    stampSource_message]
  rfl

/-- A send that blocks completes no receive. -/
theorem sendReceived_enqueue (hsd : s ≠ d) {tail : Option Pid}
    (htable : k'.procTable = enqueue k.procTable s d m tail) : sendReceived k k' s d = [] := by
  have hsame : (k'.procTable d).pFlags = (k.procTable d).pFlags := by
    rw [htable]
    simp [enqueue, hsd.symm]
  rw [sendReceived, if_neg]
  intro hc
  rw [hsame] at hc
  exact hc.1 hc.2

theorem pending_self {b : Pid} (hs : ¬ Sending (k.procTable s)) : pending k s b = [] :=
  if_neg fun hc => hs hc.1

/-- The message of the sender that is queued. -/
theorem pending_enqueue {tail : Option Pid}
    (htable : k'.procTable = enqueue k.procTable s d m tail)
    (hmem : k'.mem = (stampSource k s m).mem) : pending k' s d = [passed k s m] := by
  have hmsg : (k'.procTable s).msg = m := by rw [htable]; simp [enqueue]
  have hlin : linear k'.procTable s m = linear k.procTable s m := by rw [htable]; rfl
  have hsends : SendsTo k'.procTable s d := by
    rw [htable]
    exact sendsTo_enqueue.mpr (.inl ⟨rfl, rfl⟩)
  rw [pending, if_pos hsends, hmsg, hlin, hmem, stampSource_message]
  rfl

end Send

theorem Spares.kept {k k' : Machine} {p : Pid} {function srcDest : ℤ} {m : Addr}
    (hspares : Spares k p function srcDest m) (hI : IpcInv k.procTable)
    (h : sysSendrec k function srcDest m p = .ok k') {a : Addr}
    (ha : InBlockedBuffer k.procTable a) : k'.mem a = k.mem a :=
  sysSendrec_writes (hI.noInt p) h fun hc => hspares a hc ha

/-- A receiver that waits is not in a send. -/
theorem IpcInv.ne_of_accepts {t : ProcTable} (hI : IpcInv t) {a b d s : Pid}
    (hab : SendsTo t a b) (hacc : Accepts t d s) : a ≠ d := by
  intro hc
  subst hc
  have h1 := ((hI.shape a).inSend hab.1).flags
  have h2 := ((hI.shape a).inReceive hacc.1).flags
  exact absurd (h1.symm.trans h2) (by decide)

section SendStep

variable {x : Traced} {k' : Machine} {s d : Pid} {m : Addr}

/-- The streams after a send. -/
theorem TraceInv.send_stream (hI : TraceInv x) (hs : ¬ Sending (x.k.procTable s)) (hsd : s ≠ d)
    (hA : DirectApart x.k s d m)
    (hkept : ∀ a, InBlockedBuffer x.k.procTable a → k'.mem a = x.k.mem a)
    (h : SendEffect x.k s d m k') (a b : Pid) :
    between (x.sent ++ [⟨s, d, passed x.k s m⟩]) a b =
      between (x.received ++ sendReceived x.k k' s d) a b ++ pending k' a b := by
  rw [between_append, hI.stream]
  cases h with
  | delivered hacc hflags htable hmem =>
    have hsame := sameQueues_deliver x.k.procTable d
    have hpend : pending k' a b = pending x.k a b := by
      refine pending_congr ?_ (fun hab => ?_) ?_ hkept
      · rw [htable]
        exact hsame.sendsTo
      · rw [htable]
        simp [deliver, hI.ipc.ne_of_accepts hab hacc]
      · rw [htable]
        rfl
    rw [sendReceived_deliver hA hacc hflags htable hmem, between_append, hpend]
    by_cases hab : s = a ∧ d = b
    · obtain ⟨rfl, rfl⟩ := hab
      rw [pending_self hs, List.append_nil, List.append_nil]
    · rw [between_other hab, List.append_nil, List.append_nil]
  | queued hacc tail htail htable hmem =>
    rw [sendReceived_enqueue hsd htable, List.append_nil]
    by_cases has : s = a
    · subst has
      rw [pending_self hs, List.append_nil]
      by_cases hdb : d = b
      · subst hdb
        rw [between_self, pending_enqueue htable hmem]
      · have hnone : ¬ SendsTo k'.procTable s b := by
          rw [htable, sendsTo_enqueue]
          intro hc
          rcases hc with hc | hc
          · exact hdb hc.2.symm
          · exact hc.1 rfl
        rw [between_other fun hc => hdb hc.2, pending, if_neg hnone]
    · rw [between_other fun hc => has hc.1, List.append_nil]
      have hpend : pending k' a b = pending x.k a b := by
        refine pending_congr ?_ (fun _ => ?_) ?_ hkept
        · rw [htable, sendsTo_enqueue]
          simp [Ne.symm has]
        · rw [htable]
          simp [enqueue, Ne.symm has]
        · rw [htable]
          rfl
      rw [hpend]

/-- The order of the waiting senders after a send. -/
theorem TraceInv.send_queue (hI : TraceInv x) (hs : ¬ Sending (x.k.procTable s))
    (h : SendEffect x.k s d m k') (b : Pid) :
    IsQueue k'.procTable b (order x.k.procTable k'.procTable x.waiting b) := by
  cases h with
  | delivered hacc hflags htable hmem =>
    have hsame := sameQueues_deliver x.k.procTable d
    rw [htable, order_same (hI.queue b) fun a => hsame.sendsTo]
    exact hsame.isQueue (hI.queue b)
  | queued hacc tail htail htable hmem =>
    obtain rfl := (hI.queue d).findsTail_iff.mp htail
    rw [htable]
    by_cases hb : b = d
    · subst hb
      rw [order_enqueue m _ (hI.queue b) hs]
      exact (hI.queue b).enqueue_self hs
    · rw [order_same (hI.queue b)]
      · exact (hI.queue d).enqueue_other (hI.queue b) hb hs
      · intro a
        rw [sendsTo_enqueue]
        constructor
        · intro hc
          rcases hc with hc | hc
          · exact absurd hc.2 hb
          · exact hc.2
        · intro hc
          refine .inr ⟨?_, hc⟩
          intro has
          exact hs (has ▸ hc.1)

theorem TraceInv.send (hI : TraceInv x) (hs : (x.k.procTable s).pFlags = 0) (hsd : s ≠ d)
    (hm : m ≠ 0) (hspares : Spares x.k s SEND (proc2pid d) m) (hA : DirectApart x.k s d m)
    (h : sysSendrec x.k SEND (proc2pid d) m s = .ok k') :
    TraceInv
      { k := k'
        sent := x.sent ++ [⟨s, d, passed x.k s m⟩]
        received := x.received ++ sendReceived x.k k' s d
        waiting := order x.k.procTable k'.procTable x.waiting } := by
  have hstep : SysStep x.k k' := .call s SEND (proc2pid d) m hs (.inl ⟨rfl, d, hsd.symm, rfl⟩) hm h
  have hns := not_sending_of_flags_zero hs
  have heff := sysSendrec_send h
  refine ⟨hI.ipc.sysStep hstep, hstep.kReenter.trans hI.kReenter, ?_, fun e he => ?_, ?_⟩
  · exact hI.send_stream hns hsd hA (fun a ha => hspares.kept hI.ipc h ha) heff
  · rcases List.mem_append.mp he with he | he
    · exact hI.source e he
    · rw [List.mem_singleton.mp he]
      rfl
  · exact hI.send_queue hns heff

end SendStep

/-! ## A receive -/

theorem completed_dequeue {t : ProcTable} {w f : Pid} {prev : Option Pid} (hf : Sending (t f)) :
    completed t (dequeue t w f prev) = [f] := by
  refine filter_slots_eq_singleton fun s => ?_
  by_cases hs : s = f
  · subst hs
    simp [sending_iff, dequeue, sending_iff.mp hf]
  · simp [Sending, dequeue, hs]

theorem completed_sameQueues {t t' : ProcTable} (h : SameQueues t t') : completed t t' = [] := by
  refine filter_slots_eq_nil fun s hs => ?_
  exact hs.2 ((h.sending s).mpr hs.1)

section ReceiveStep

variable {x : Traced} {k' : Machine} {w : Pid} {src : ℤ} {m : Addr}

/-- The message taken is the one that was pending. -/
theorem TraceInv.taken_message {f : Pid} (hfound : Found x.k.procTable w f)
    (hfinds : Finds x.k.procTable w src) (hspares : Spares x.k w RECEIVE src m)
    (hmem : k'.mem = pAsmMemcpy (stampSource x.k w m).mem (linear x.k.procTable w m)
      (linear x.k.procTable f (x.k.procTable f).msg) sizeofMessage) :
    pending x.k f w = [readMessage k'.mem (linear x.k.procTable w m)] := by
  have hblocked : ∀ a, InMessage (linear x.k.procTable f (x.k.procTable f).msg) a →
      InBlockedBuffer x.k.procTable a := fun a ha => ⟨f, hfound.sendsTo.1, ha⟩
  have hover : NoForwardOverlap sizeofMessage (linear x.k.procTable w m)
      (linear x.k.procTable f (x.k.procTable f).msg) := by
    apply noForwardOverlap_of_disjoint
    intro a ha hc
    exact hspares a (.inr (.inr ⟨rfl, hfinds, ha⟩)) (hblocked a hc)
  rw [pending, if_pos hfound.sendsTo, hmem, readMessage_copy hover]
  refine congrArg (fun y => [y]) (readMessage_frame fun a ha => ?_).symm
  exact stampSource_out fun hc => hspares a (.inl hc) (hblocked a ha)

/-- The streams after a receive. -/
theorem TraceInv.receive_stream (hI : TraceInv x) (hspares : Spares x.k w RECEIVE src m)
    (hw : (x.k.procTable w).pFlags = 0)
    (hkept : ∀ a, InBlockedBuffer x.k.procTable a → k'.mem a = x.k.mem a)
    (h : ReceiveEffect x.k w src m k') (a b : Pid) :
    between x.sent a b =
      between (x.received ++ receiveReceived x.k k' w m) a b ++ pending k' a b := by
  rw [between_append, hI.stream]
  cases h with
  | taken f prev hsrc hfound hprev htable hmem =>
    have hfinds : Finds x.k.procTable w src := by
      rcases hsrc with hsrc | hsrc
      · exact .inl ⟨hsrc.1, hfound.queue⟩
      · exact .inr ⟨f, hsrc, hfound.sendsTo⟩
    rw [receiveReceived, htable, completed_dequeue hfound.sendsTo.1, List.map_singleton]
    by_cases hfa : f = a
    · subst hfa
      have hnone : pending k' f b = [] := by
        rw [pending, if_neg]
        rw [htable, sendsTo_dequeue]
        exact fun hc => hc.1 rfl
      rw [hnone, List.append_nil]
      by_cases hwb : w = b
      · subst hwb
        rw [between_self, TraceInv.taken_message hfound hfinds hspares hmem]
      · rw [between_other fun hc => hwb hc.2, pending, if_neg fun hc => ?_]
        exact hwb (hfound.sendsTo.unique hc)
    · have hpend : pending k' a b = pending x.k a b := by
        refine pending_congr ?_ (fun _ => ?_) ?_ hkept
        · rw [htable, sendsTo_dequeue]
          simp [Ne.symm hfa]
        · rw [htable]
          simp [dequeue, Ne.symm hfa]
        · rw [htable]
          rfl
      rw [between_other fun hc => hfa hc.1, List.append_nil, hpend]
  | parked hsrc htable hmem =>
    have hsame := sameQueues_park x.k.procTable w src m
    have hpend : pending k' a b = pending x.k a b := by
      refine pending_congr ?_ (fun hab => ?_) ?_ hkept
      · rw [htable]
        exact hsame.sendsTo
      · have haw : a ≠ w := by
          intro hc
          exact not_sending_of_flags_zero hw (hc ▸ hab.1)
        rw [htable]
        simp [park, haw]
      · rw [htable]
        rfl
    rw [receiveReceived, htable, completed_sameQueues hsame, List.map_nil, between_nil,
      List.append_nil, hpend]

/-- The order of the waiting senders after a receive. -/
theorem TraceInv.receive_queue (hI : TraceInv x) (h : ReceiveEffect x.k w src m k') (b : Pid) :
    IsQueue k'.procTable b (order x.k.procTable k'.procTable x.waiting b) := by
  cases h with
  | taken f prev hsrc hfound hprev htable hmem =>
    obtain ⟨l₁, l₂, hl, hf, rfl⟩ := (hI.queue w).findsPrev hfound.sendsTo hprev
    have hqw := hI.queue w
    rw [hl] at hqw
    rw [htable]
    by_cases hb : b = w
    · subst hb
      rw [order_dequeue (hI.queue b) hl]
      exact hqw.dequeue_self
    · rw [order_same (hI.queue b)]
      · exact hqw.dequeue_other (hI.queue b) hb
      · intro a
        rw [sendsTo_dequeue]
        constructor
        · exact fun hc => hc.2
        · intro hc
          refine ⟨?_, hc⟩
          intro haf
          exact hb (hc.unique (haf ▸ hfound.sendsTo))
  | parked hsrc htable hmem =>
    have hsame := sameQueues_park x.k.procTable w src m
    rw [htable, order_same (hI.queue b) fun a => hsame.sendsTo]
    exact hsame.isQueue (hI.queue b)

theorem TraceInv.receive (hI : TraceInv x) (hw : (x.k.procTable w).pFlags = 0)
    (hsrc : src = ANY ∨ ∃ f : Pid, f ≠ w ∧ src = proc2pid f) (hm : m ≠ 0)
    (hspares : Spares x.k w RECEIVE src m) (h : sysSendrec x.k RECEIVE src m w = .ok k') :
    TraceInv
      { k := k'
        sent := x.sent
        received := x.received ++ receiveReceived x.k k' w m
        waiting := order x.k.procTable k'.procTable x.waiting } := by
  have hstep : SysStep x.k k' := .call w RECEIVE src m hw (.inr ⟨rfl, hsrc⟩) hm h
  have heff := sysSendrec_receive (hI.ipc.noInt w) h
  refine ⟨hI.ipc.sysStep hstep, hstep.kReenter.trans hI.kReenter, ?_, hI.source, ?_⟩
  · exact hI.receive_stream hspares hw (fun a ha => hspares.kept hI.ipc h ha) heff
  · exact hI.receive_queue heff

end ReceiveStep

/-! ## Whole runs -/

theorem TraceInv.step {x x' : Traced} (hI : TraceInv x) (h : TraceStep DirectApart x x') :
    TraceInv x' := by
  cases h with
  | send s d m hs hsd hm hspares hA h => exact hI.send hs hsd hm hspares hA h
  | receive w src m hw hsrc hm hspares h => exact hI.receive hw hsrc hm hspares h
  | compute mem ready hspares =>
    refine ⟨hI.ipc, hI.kReenter, fun s d => ?_, hI.source, hI.queue⟩
    have hpend : pending { x.k with mem := mem, readyProcess := ready } s d = pending x.k s d :=
      pending_congr Iff.rfl (fun _ => rfl) rfl hspares
    rw [hpend]
    exact hI.stream s d

/-- A message received by `d` from `s` was passed by `s` to a send to `d`. -/
theorem TraceInv.received_mem_sent {x : Traced} (hI : TraceInv x) {e : Event}
    (he : e ∈ x.received) : e ∈ x.sent := by
  have hmem : e.msg ∈ between x.received e.src e.dst := by
    refine List.mem_map.mpr ⟨e, List.mem_filter.mpr ⟨he, ?_⟩, rfl⟩
    simp
  have hsent : e.msg ∈ between x.sent e.src e.dst := by
    rw [hI.stream]
    exact List.mem_append_left _ hmem
  obtain ⟨e', he', hmsg⟩ := List.mem_map.mp hsent
  obtain ⟨he', hpair⟩ := List.mem_filter.mp he'
  simp only [decide_eq_true_eq] at hpair
  have : e' = e := by
    cases e
    cases e'
    simp_all
  exact this ▸ he'

/-- A receive from anybody takes the first of the waiting senders. -/
theorem TraceInv.receive_any {x : Traced} (hI : TraceInv x) {k' : Machine} {d f : Pid} {m : Addr}
    {rest : List Pid} (h : sysSendrec x.k RECEIVE ANY m d = .ok k')
    (hwait : x.waiting d = f :: rest) :
    completed x.k.procTable k'.procTable = [f] ∧
      order x.k.procTable k'.procTable x.waiting d = rest := by
  have hq := hI.queue d
  have hhead : (x.k.procTable d).qSending = some f := by
    have := hq.linked
    rw [hwait] at this
    exact this.1
  cases sysSendrec_receive (hI.ipc.noInt d) h with
  | taken f' prev hsrc hfound hprev htable hmem =>
    rcases hsrc with hsrc | hsrc
    · obtain rfl : f = f' := Option.some.inj (hhead.symm.trans hsrc.2)
      have hsplit : x.waiting d = [] ++ f :: rest := hwait
      rw [htable]
      exact ⟨completed_dequeue hfound.sendsTo.1, order_dequeue hq hsplit⟩
    · exact absurd hsrc.symm (proc2pid_ne_any f')
  | parked hsrc htable hmem =>
    rcases hsrc with hsrc | ⟨f', hsrc, _⟩
    · rw [hhead] at hsrc
      exact absurd hsrc.2 (by simp)
    · exact absurd hsrc.symm (proc2pid_ne_any f')

/-- What an observer of a run can rely on. -/
structure ExactlyOnce (x : Traced) : Prop where
  /-- The receives of `d` have taken from `s` what `s` has passed to its sends to
      `d`, in order; only the last message is missing, exactly while `s` is
      blocked in the send. -/
  stream : ∀ s d,
    if (x.k.procTable s).pFlags = SENDING ∧ (x.k.procTable s).pSendto = proc2pid d then
      ∃ m, between x.sent s d = between x.received s d ++ [m]
    else between x.sent s d = between x.received s d
  source : ∀ e ∈ x.received, e.msg.source = BitVec.ofInt 32 (proc2pid e.src)
  /-- A receive from `ANY` with a sender waiting completes the send of the one
      that has waited longest and leaves the others in their order. -/
  any : ∀ (d s : Pid) (m : Addr) (k' : Machine), SendsTo x.k.procTable s d →
    sysSendrec x.k RECEIVE ANY m d = .ok k' →
    ∃ f rest, x.waiting d = f :: rest ∧ completed x.k.procTable k'.procTable = [f] ∧
      order x.k.procTable k'.procTable x.waiting d = rest

/-- Exactly-once, in-order delivery in every state of every run in which the
    buffer of a waiting receiver does not begin inside the sender's. -/
theorem traced_delivery {x : Traced} (h : Reachable TraceStart (TraceStep DirectApart) x) :
    ExactlyOnce x := by
  have hI : TraceInv x :=
    h.invariant (I := TraceInv) (fun _ h0 => h0.inv) fun _ _ hI hs => hI.step hs
  refine ⟨fun s d => ?_, fun e he => hI.source e (hI.received_mem_sent he),
    fun d s m k' hs hrecv => ?_⟩
  · have hst := hI.stream s d
    simp only [← hI.ipc.sendsTo_iff]
    split_ifs with hsend
    · exact ⟨_, by rw [hst, pending, if_pos hsend]⟩
    · rw [hst, pending, if_neg hsend, List.append_nil]
  · cases hwait : x.waiting d with
    | nil =>
      have hmem := ((hI.queue d).mem_iff s).mpr hs
      rw [hwait] at hmem
      exact absurd hmem List.not_mem_nil
    | cons f rest =>
      obtain ⟨h1, h2⟩ := hI.receive_any hrecv hwait
      exact ⟨f, rest, rfl, h1, h2⟩

/-! ### Two runs -/

/-- The booted machine, unobserved so far. -/
def bootTrace : Traced := ⟨bootMachine sampleImage, [], [], fun _ => []⟩

theorem bootTrace_start : TraceStart bootTrace :=
  ⟨initProc_quiescent sampleImage, rfl, rfl, rfl, rfl⟩

theorem spares_of_no_sender {k : Machine} (h : ∀ b, ¬ Sending (k.procTable b)) (p : Pid)
    (function srcDest : ℤ) (m : Addr) : Spares k p function srcDest m :=
  fun _ _ hc => h hc.choose hc.choose_spec.1

/-- Process 5 waits for anybody, process 4 sends to it from another buffer. -/
theorem traced_delivery_direct :
    ∃ x, Reachable TraceStart (TraceStep DirectApart) x ∧ x.sent.length = 1 ∧
      between x.sent 4 5 = between x.received 4 5 := by
  have hrun : ∃ x, x.sent.length = 1 ∧ (x.k.procTable 4).pFlags = 0 ∧
      Reachable TraceStart (TraceStep DirectApart) x := by
    refine ⟨_, ?_, ?_, .step (.step (.init bootTrace_start)
      (.receive 5 ANY 0x2000 rfl (.inl rfl) (by decide) (spares_of_no_sender ?_ _ _ _ _) rfl))
      (.send 4 5 0x1000 rfl (by decide) (by decide) (spares_of_no_sender ?_ _ _ _ _) ?_ rfl)⟩
    · rfl
    · rfl
    · decide
    · decide
    · intro _
      exact .inr (by decide)
  obtain ⟨x, hlen, hflags, hx⟩ := hrun
  refine ⟨x, hx, hlen, ?_⟩
  have hstream := (traced_delivery hx).stream 4 5
  rwa [if_neg (by rw [hflags]; exact fun hc => absurd hc.1 (by decide))] at hstream

/-- Process 5 waits for anybody with a buffer that begins four bytes into the
    message that process 4 then sends: the copy overwrites the message while it
    reads it, and `type` arrives as the source. -/
theorem overlapping_delivery :
    ∃ x, Reachable TraceStart (TraceStep fun _ _ _ _ => True) x ∧ ¬ ExactlyOnce x := by
  refine ⟨_, .step (.step (.init bootTrace_start)
    (.receive 5 ANY 0x1004 rfl (.inl rfl) (by decide) (spares_of_no_sender ?_ _ _ _ _) rfl))
    (.send 4 5 0x1000 rfl (by decide) (by decide) (spares_of_no_sender ?_ _ _ _ _) trivial rfl),
    fun h => ?_⟩
  · decide
  · decide
  · have hstream := h.stream 4 5
    rw [if_neg (by decide)] at hstream
    exact absurd hstream (by decide)

end SimpleOs
