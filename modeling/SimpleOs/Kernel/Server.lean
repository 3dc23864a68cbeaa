import SimpleOs.Kernel.Delivery

/-!
# A server and its clients

The system tasks are servers: a task loops over `RECEIVE ANY` and sends to the
processes it serves, and a client asks it with `send_recv(BOTH, …)`, a `SEND`
followed by a `RECEIVE` from the server. `Served` describes a process table in
which all messages go to or come from one server: where every client is on its
way through the two calls, what the server is doing, and who waits for it.

The four lemmas of this module are the protocol: what a client's and the
server's calls do to this description. They do not ask what the messages say.
-/

namespace SimpleOs

open ByteMem

/-! ## The states of the parties -/

/-- Where a client is in `send_recv(BOTH, S, m)`. The flag of the last two says
    that the memory manager has set WAITING. -/
inductive Client where
  /-- The slot is free. -/
  | free
  /-- Before the send, or behind the receive. -/
  | out
  /-- Blocked in the send. -/
  | queued
  /-- The server has the message, the receive is still to come. -/
  | due (waiting : Bool)
  /-- Blocked in the receive. -/
  | parked (waiting : Bool)
  deriving DecidableEq

/-- What the server is doing; `m` is the buffer of its call. -/
inductive Server where
  | ready
  /-- Blocked in a receive from `ANY`. -/
  | listening (m : Addr)
  /-- Blocked in a send to `c`. -/
  | sending (c : Pid) (m : Addr)
  deriving DecidableEq

/-- The WAITING bit. -/
def waitBit (waiting : Bool) : BitVec 32 := if waiting then WAITING else 0

/-- The flags of a client. -/
def Client.flags : Client → BitVec 32
  | .free => FREE_SLOT
  | .out => 0
  | .queued => SENDING
  | .due w => waitBit w
  | .parked w => RECEIVING ||| waitBit w

/-- The flags of the server. -/
def Server.flags : Server → BitVec 32
  | .ready => 0
  | .listening _ => RECEIVING
  | .sending _ _ => SENDING

/-- The slot of a client of `S` with the message buffer `m`. -/
def Client.Fields (S : Pid) (m : Addr) (p : Process) (c : Client) : Prop :=
  p.pFlags = c.flags ∧
    match c with
    | .free => True
    | .queued => p.msg = m ∧ p.pRecvfrom = NO_TASK ∧ p.pSendto = proc2pid S
    | .parked _ => p.msg = m ∧ p.pRecvfrom = proc2pid S ∧ p.pSendto = NO_TASK
    | _ => p.msg = 0 ∧ p.pRecvfrom = NO_TASK ∧ p.pSendto = NO_TASK

/-- The slot of the server. -/
def Server.Fields (p : Process) (s : Server) : Prop :=
  p.pFlags = s.flags ∧
    match s with
    | .ready => p.msg = 0 ∧ p.pRecvfrom = NO_TASK ∧ p.pSendto = NO_TASK
    | .listening m => p.msg = m ∧ p.pRecvfrom = ANY ∧ p.pSendto = NO_TASK
    | .sending c m => p.msg = m ∧ p.pRecvfrom = NO_TASK ∧ p.pSendto = proc2pid c

theorem Client.flags_sending (c : Client) : c.flags &&& SENDING ≠ 0 ↔ c = .queued := by
  cases c with
  | due w => cases w <;> decide
  | parked w => cases w <;> decide
  | _ => decide

theorem Client.flags_receiving (c : Client) :
    c.flags &&& RECEIVING ≠ 0 ↔ ∃ w, c = .parked w := by
  cases c with
  | due w => cases w <;> decide
  | parked w => cases w <;> decide
  | _ => decide

theorem Server.flags_sending (s : Server) :
    s.flags &&& SENDING ≠ 0 ↔ ∃ c m, s = .sending c m := by
  cases s with
  | ready => simp [Server.flags]
  | listening m => simp [Server.flags]
  | sending c m => simp [Server.flags]

theorem Server.flags_receiving (s : Server) :
    s.flags &&& RECEIVING ≠ 0 ↔ ∃ m, s = .listening m := by
  cases s with
  | ready => simp [Server.flags]
  | listening m => simp [Server.flags]
  | sending c m => simp [Server.flags]

theorem Client.Fields.congr {S : Pid} {m : Addr} {p q : Process} {c : Client}
    (h : c.Fields S m p) (hf : q.pFlags = p.pFlags) (hm : q.msg = p.msg)
    (hr : q.pRecvfrom = p.pRecvfrom) (hs : q.pSendto = p.pSendto) : c.Fields S m q := by
  unfold Client.Fields at *
  rw [hf, hm, hr, hs]
  exact h

theorem Server.Fields.congr {p q : Process} {s : Server} (h : s.Fields p)
    (hf : q.pFlags = p.pFlags) (hm : q.msg = p.msg) (hr : q.pRecvfrom = p.pRecvfrom)
    (hs : q.pSendto = p.pSendto) : s.Fields q := by
  unfold Server.Fields at *
  rw [hf, hm, hr, hs]
  exact h

/-- The table of a server `S` with the clients in the states `client`, their
    buffers `buf`, and the clients `queue` waiting for it, in order. -/
structure Served (S : Pid) (t : ProcTable) (buf : Pid → Addr) (client : Pid → Client)
    (server : Server) (queue : List Pid) : Prop where
  clients : ∀ p, p ≠ S → (client p).Fields S (buf p) (t p)
  server : server.Fields (t S)
  inv : QueueInv t
  queue : IsQueue t S queue
  noInt : ∀ p, (t p).hasIntMsg = 0

/-- Nobody has asked anything yet. -/
def Client.initial (p : Process) : Client := if p.pFlags = FREE_SLOT then .free else .out

theorem Quiescent.served {S : Pid} {t : ProcTable} (h : Quiescent t) (hS : (t S).pFlags = 0)
    (buf : Pid → Addr) : Served S t buf (fun p => Client.initial (t p)) .ready [] := by
  refine ⟨fun p _ => ?_, ?_, h.queueInv, h.isQueue S, fun p => (h.idle p).hasIntMsg⟩
  · have hp := h.idle p
    unfold Client.initial
    by_cases hf : (t p).pFlags = FREE_SLOT
    · rw [if_pos hf]
      exact ⟨hf, trivial⟩
    · rw [if_neg hf]
      have h0 : (t p).pFlags = 0 := hp.flags.resolve_right hf
      exact ⟨h0, hp.msg h0, hp.recvfrom h0, hp.sendto h0⟩
  · have hp := h.idle S
    exact ⟨hS, hp.msg hS, hp.recvfrom hS, hp.sendto hS⟩

/-! ## Who sends and who receives -/

section Facts

variable {S : Pid} {t : ProcTable} {buf : Pid → Addr} {client : Pid → Client} {server : Server}
  {queue : List Pid}

theorem Served.sending_client (h : Served S t buf client server queue) {p : Pid} (hp : p ≠ S) :
    Sending (t p) ↔ client p = .queued := by
  rw [Sending, (h.clients p hp).1, Client.flags_sending]

theorem Served.sendsTo_client (h : Served S t buf client server queue) {p d : Pid} (hp : p ≠ S) :
    SendsTo t p d ↔ client p = .queued ∧ d = S := by
  rw [SendsTo, h.sending_client hp]
  refine and_congr_right fun hq => ?_
  have hf := (h.clients p hp).2
  rw [hq] at hf
  rw [hf.2.2, proc2pid_inj]
  exact eq_comm

theorem Served.server_sendsTo (h : Served S t buf client server queue) {d : Pid} :
    SendsTo t S d ↔ ∃ m, server = .sending d m := by
  have hf := h.server
  rw [SendsTo, Sending, hf.1, Server.flags_sending]
  constructor
  · intro hs
    obtain ⟨⟨c, m, rfl⟩, hd⟩ := hs
    obtain rfl := proc2pid_inj.mp (hf.2.2.2.symm.trans hd)
    exact ⟨m, rfl⟩
  · intro hs
    obtain ⟨m, rfl⟩ := hs
    exact ⟨⟨d, m, rfl⟩, hf.2.2.2⟩

/-- The queue holds the clients in a send. -/
theorem Served.mem_queue (h : Served S t buf client server queue) {p : Pid} (hp : p ≠ S) :
    p ∈ queue ↔ client p = .queued := by
  rw [h.queue.mem_iff, h.sendsTo_client hp]
  simp

/-- The server accepts a message exactly when it listens. -/
theorem Served.server_accepts (h : Served S t buf client server queue) {p : Pid} :
    Accepts t S p ↔ ∃ m, server = .listening m := by
  have hf := h.server
  rw [Accepts, hf.1, Server.flags_receiving]
  refine and_iff_left_of_imp fun hs => ?_
  obtain ⟨m, rfl⟩ := hs
  exact .inr hf.2.2.1

/-- A client accepts a message of the server exactly when it is parked. -/
theorem Served.client_accepts (h : Served S t buf client server queue) {p : Pid} (hp : p ≠ S) :
    Accepts t p S ↔ ∃ w, client p = .parked w := by
  have hf := h.clients p hp
  rw [Accepts, hf.1, Client.flags_receiving]
  refine and_iff_left_of_imp fun hs => ?_
  obtain ⟨w, hw⟩ := hs
  have hf := hf.2
  rw [hw] at hf
  exact .inl hf.2.1

end Facts

/-! ## The protocol -/

section Protocol

variable {S : Pid} {k k' : Machine} {buf : Pid → Addr} {client : Pid → Client} {server : Server}
  {queue : List Pid} {c : Pid}

/-- A client sends its request: a listening server has it at once, otherwise the
    client waits at the end of the queue. -/
theorem Served.client_send (h : Served S k.procTable buf client server queue) (hc : c ≠ S)
    (hout : client c = .out) (he : SendEffect k c S (buf c) k') :
    (∃ b, server = .listening b ∧
      k'.mem = pAsmMemcpy (stampSource k c (buf c)).mem (linear k.procTable S b)
        (linear k.procTable c (buf c)) sizeofMessage ∧
      Served S k'.procTable buf (Function.update client c (.due false)) .ready queue) ∨
    ((∀ b, server ≠ .listening b) ∧ k'.mem = (stampSource k c (buf c)).mem ∧
      Served S k'.procTable buf (Function.update client c .queued) server (queue ++ [c])) := by
  have hfc := h.clients c hc
  rw [hout] at hfc
  have hns : ¬ Sending (k.procTable c) := not_sending_of_flags_zero hfc.1
  cases he with
  | delivered hacc hflags htable hmem =>
    obtain ⟨b, hb⟩ := h.server_accepts.mp hacc
    have hfs := h.server
    rw [hb] at hfs
    have hsame := sameQueues_deliver k.procTable S
    rw [hfs.2.1] at hmem
    rw [htable]
    refine .inl ⟨b, hb, hmem, fun p hp => ?_, ?_, hsame.queueInv h.inv, hsame.isQueue h.queue,
      h.noInt⟩
    · have hfields : (Function.update client c (.due false) p).Fields S (buf p)
          (k.procTable p) := by
        by_cases hpc : p = c
        · subst hpc
          rw [Function.update_self]
          exact hfc
        · rw [Function.update_of_ne hpc]
          exact h.clients p hp
      exact hfields.congr (by simp [deliver, hp]) (by simp [deliver, hp])
        (by simp [deliver, hp]) rfl
    · exact ⟨by simpa [deliver, Server.flags] using hflags, by simp [deliver], by simp [deliver],
        hfs.2.2.2⟩
  | queued hacc tail htail htable hmem =>
    obtain rfl := h.queue.findsTail_iff.mp htail
    rw [htable]
    refine .inr ⟨fun b hb => hacc (h.server_accepts.mpr ⟨b, hb⟩), hmem, fun p hp => ?_, ?_,
      h.inv.enqueue hns htail, h.queue.enqueue_self hns, h.noInt⟩
    · by_cases hpc : p = c
      · subst hpc
        rw [Function.update_self]
        exact ⟨by simp [enqueue, hfc.1, Client.flags], by simp [enqueue],
          by simpa [enqueue] using hfc.2.2.1, by simp [enqueue]⟩
      · rw [Function.update_of_ne hpc]
        exact (h.clients p hp).congr (by simp [enqueue, hpc]) (by simp [enqueue, hpc]) rfl
          (by simp [enqueue, hpc])
    · exact h.server.congr (by simp [enqueue, hc.symm]) (by simp [enqueue, hc.symm]) rfl
        (by simp [enqueue, hc.symm])

/-- A client asks for the reply: it takes it from a server that is sending to it,
    otherwise it is parked. -/
theorem Served.client_receive (h : Served S k.procTable buf client server queue) (hc : c ≠ S)
    (hdue : client c = .due false) (he : ReceiveEffect k c (proc2pid S) (buf c) k') :
    (∃ b, server = .sending c b ∧
      k'.mem = pAsmMemcpy (stampSource k c (buf c)).mem (linear k.procTable c (buf c))
        (linear k.procTable S b) sizeofMessage ∧
      Served S k'.procTable buf (Function.update client c .out) .ready queue) ∨
    ((∀ b, server ≠ .sending c b) ∧ k'.mem = (stampSource k c (buf c)).mem ∧
      Served S k'.procTable buf (Function.update client c (.parked false)) server queue) := by
  have hfc := h.clients c hc
  rw [hdue] at hfc
  cases he.from_proc with
  | taken prev hfound hprev htable hmem =>
    obtain ⟨b, hb⟩ := h.server_sendsTo.mp hfound.sendsTo
    have hfs := h.server
    rw [hb] at hfs
    rw [hfs.2.1] at hmem
    obtain ⟨l, hl⟩ := h.inv.queue c
    have hqS : IsQueue (dequeue k.procTable c S prev) S queue := by
      obtain ⟨l₁, l₂, rfl, _, rfl⟩ := hl.findsPrev hfound.sendsTo hprev
      exact hl.dequeue_other h.queue hc.symm
    rw [htable]
    refine .inl ⟨b, hb, hmem, fun p hp => ?_, ?_, h.inv.dequeue hfound.sendsTo hprev, hqS,
      h.noInt⟩
    · have hfields : (Function.update client c .out p).Fields S (buf p) (k.procTable p) := by
        by_cases hpc : p = c
        · subst hpc
          rw [Function.update_self]
          exact hfc
        · rw [Function.update_of_ne hpc]
          exact h.clients p hp
      exact hfields.congr (by simp [dequeue, hp]) (by simp [dequeue, hp]) rfl
        (by simp [dequeue, hp])
    · exact ⟨by simp [dequeue, hfound.fromFlags, Server.flags], by simp [dequeue],
        hfound.fromRecvfrom, by simp [dequeue]⟩
  | parked hnot htable hmem =>
    have hsame := sameQueues_park k.procTable c (proc2pid S) (buf c)
    rw [htable]
    refine .inr ⟨fun b hb => hnot (h.server_sendsTo.mpr ⟨b, hb⟩), hmem, fun p hp => ?_, ?_,
      hsame.queueInv h.inv, hsame.isQueue h.queue, h.noInt⟩
    · by_cases hpc : p = c
      · subst hpc
        rw [Function.update_self]
        exact ⟨by simp [park, hfc.1, Client.flags, waitBit], by simp [park], by simp [park],
          hfc.2.2.2⟩
      · rw [Function.update_of_ne hpc]
        exact (h.clients p hp).congr (by simp [park, hpc]) (by simp [park, hpc])
          (by simp [park, hpc]) rfl
    · exact h.server.congr (by simp [park, hc.symm]) (by simp [park, hc.symm])
        (by simp [park, hc.symm]) rfl

/-- The server receives: it takes the request of the first client in its queue,
    otherwise it listens. -/
theorem Served.server_receive {b : Addr}
    (h : Served S k.procTable buf client .ready queue)
    (he : ReceiveEffect k S ANY b k') :
    (∃ f rest, queue = f :: rest ∧ f ≠ S ∧ client f = .queued ∧
      k'.mem = pAsmMemcpy (stampSource k S b).mem (linear k.procTable S b)
        (linear k.procTable f (buf f)) sizeofMessage ∧
      Served S k'.procTable buf (Function.update client f (.due false)) .ready rest) ∨
    (queue = [] ∧ k'.mem = (stampSource k S b).mem ∧
      Served S k'.procTable buf client (.listening b) queue) := by
  have hfs := h.server
  cases he with
  | taken f prev hsrc hfound hprev htable hmem =>
    have hhead : (k.procTable S).qSending = some f := by
      rcases hsrc with hsrc | hsrc
      · exact hsrc.2
      · exact absurd hsrc.symm (proc2pid_ne_any f)
    obtain ⟨rest, rfl⟩ := h.queue.head_eq_some hhead
    have hfS : f ≠ S := by
      rintro rfl
      have := hfound.sendsTo.1
      rw [Sending, hfs.1] at this
      exact absurd this (by decide)
    have hq : client f = .queued := (h.mem_queue hfS).mp List.mem_cons_self
    have hff := h.clients f hfS
    rw [hq] at hff
    have hnone : prev = none := by
      rcases hprev with hp | hp
      · exact hp.1
      · exact absurd hhead hp.2.1
    subst hnone
    have hqS : IsQueue (dequeue k.procTable S f none) S rest := by
      have hl : IsQueue k.procTable S ([] ++ f :: rest) := h.queue
      exact hl.dequeue_self
    rw [hff.2.1] at hmem
    rw [htable]
    refine .inl ⟨f, rest, rfl, hfS, hq, hmem, fun p hp => ?_, ?_,
      h.inv.dequeue hfound.sendsTo hprev, hqS, h.noInt⟩
    · by_cases hpf : p = f
      · subst hpf
        rw [Function.update_self]
        exact ⟨by simp [dequeue, hfound.fromFlags, Client.flags, waitBit], by simp [dequeue],
          hfound.fromRecvfrom, by simp [dequeue]⟩
      · rw [Function.update_of_ne hpf]
        exact (h.clients p hp).congr (by simp [dequeue, hpf]) (by simp [dequeue, hpf]) rfl
          (by simp [dequeue, hpf])
    · exact hfs.congr (by simp [dequeue, hfS.symm]) (by simp [dequeue, hfS.symm]) rfl
        (by simp [dequeue, hfS.symm])
  | parked hsrc htable hmem =>
    have hnone : (k.procTable S).qSending = none := by
      rcases hsrc with hsrc | ⟨f, hf, _⟩
      · exact hsrc.2
      · exact absurd hf.symm (proc2pid_ne_any f)
    have hsame := sameQueues_park k.procTable S ANY b
    rw [htable]
    refine .inr ⟨h.queue.head_eq_none.mp hnone, hmem, fun p hp => ?_, ?_, hsame.queueInv h.inv,
      hsame.isQueue h.queue, h.noInt⟩
    · exact (h.clients p hp).congr (by simp [park, hp]) (by simp [park, hp]) (by simp [park, hp])
        rfl
    · exact ⟨by simp [park, hfs.1, Server.flags], by simp [park], by simp [park], hfs.2.2.2⟩

/-- The server sends to a client: it is released if it is parked, otherwise the
    server waits for it. -/
theorem Served.server_send {b : Addr} (h : Served S k.procTable buf client .ready queue)
    (hc : c ≠ S) (he : SendEffect k S c b k') :
    (client c = .parked false ∧
      k'.mem = pAsmMemcpy (stampSource k S b).mem (linear k.procTable c (buf c))
        (linear k.procTable S b) sizeofMessage ∧
      Served S k'.procTable buf (Function.update client c .out) .ready queue) ∨
    ((∀ w, client c ≠ .parked w) ∧ k'.mem = (stampSource k S b).mem ∧
      Served S k'.procTable buf client (.sending c b) queue) := by
  have hfs := h.server
  have hns : ¬ Sending (k.procTable S) := not_sending_of_flags_zero hfs.1
  cases he with
  | delivered hacc hflags htable hmem =>
    obtain ⟨w, hw⟩ := (h.client_accepts hc).mp hacc
    have hfc := h.clients c hc
    rw [hw] at hfc
    -- the call returns only if no other bit is set
    have hfalse : w = false := by
      rw [hfc.1] at hflags
      cases w with
      | false => rfl
      | true => exact absurd hflags (by decide)
    subst hfalse
    have hsame := sameQueues_deliver k.procTable c
    rw [hfc.2.1] at hmem
    rw [htable]
    refine .inl ⟨hw, hmem, fun p hp => ?_, ?_, hsame.queueInv h.inv, hsame.isQueue h.queue,
      h.noInt⟩
    · by_cases hpc : p = c
      · subst hpc
        rw [Function.update_self]
        exact ⟨by simpa [deliver, Client.flags] using hflags, by simp [deliver], by simp [deliver],
          hfc.2.2.2⟩
      · rw [Function.update_of_ne hpc]
        exact (h.clients p hp).congr (by simp [deliver, hpc]) (by simp [deliver, hpc])
          (by simp [deliver, hpc]) rfl
    · exact hfs.congr (by simp [deliver, hc.symm]) (by simp [deliver, hc.symm])
        (by simp [deliver, hc.symm]) rfl
  | queued hacc tail htail htable hmem =>
    obtain ⟨l, hl⟩ := h.inv.queue c
    have hqS : IsQueue (enqueue k.procTable S c b tail) S queue := by
      obtain rfl := hl.findsTail_iff.mp htail
      exact hl.enqueue_other h.queue hc.symm hns
    rw [htable]
    refine .inr ⟨fun w hw => hacc ((h.client_accepts hc).mpr ⟨w, hw⟩), hmem, fun p hp => ?_, ?_,
      h.inv.enqueue hns htail, hqS, h.noInt⟩
    · exact (h.clients p hp).congr (by simp [enqueue, hp]) (by simp [enqueue, hp]) rfl
        (by simp [enqueue, hp])
    · exact ⟨by simp [enqueue, hfs.1, Server.flags], by simp [enqueue],
        by simpa [enqueue] using hfs.2.2.1, by simp [enqueue]⟩

end Protocol

/-! ## What the observer sees -/

section Observer

variable {S : Pid} {k k' : Machine} {buf buf' : Pid → Addr} {client client' : Pid → Client}
  {server server' : Server} {queue queue' : List Pid} {c : Pid}

/-- A client's position can be forgotten when it is outside `send_recv`. -/
theorem Served.rebuf {t : ProcTable} (h : Served S t buf client server queue)
    (hc : client c = .out) (m : Addr) :
    Served S t (Function.update buf c m) client server queue := by
  refine ⟨fun p hp => ?_, h.server, h.inv, h.queue, h.noInt⟩
  by_cases hpc : p = c
  · subst hpc
    have hf := h.clients p hp
    rw [hc] at *
    exact hf
  · rw [Function.update_of_ne hpc]
    exact h.clients p hp

/-- A send to a server that was listening and is ready. -/
theorem Served.sendReceived_server {b : Addr}
    (h : Served S k.procTable buf client (.listening b) queue)
    (h' : Served S k'.procTable buf' client' .ready queue') (s : Pid) :
    sendReceived k k' s S = [⟨s, S, readMessage k'.mem (linear k.procTable S b)⟩] := by
  have hf := h.server
  have hrecv : (k.procTable S).pFlags &&& RECEIVING ≠ 0 := by
    rw [hf.1, Server.flags_receiving]
    exact ⟨b, rfl⟩
  have hdone : (k'.procTable S).pFlags &&& RECEIVING = 0 := by rw [h'.server.1]; decide
  rw [sendReceived, if_pos ⟨hrecv, hdone⟩, hf.2.1]

theorem Served.sendReceived_busy (h : Served S k.procTable buf client server queue)
    (hs : ∀ b, server ≠ .listening b) (s : Pid) : sendReceived k k' s S = [] := by
  rw [sendReceived, if_neg]
  intro hc
  obtain ⟨b, hb⟩ := (h.server.1 ▸ Server.flags_receiving server).mp hc.1
  exact hs b hb

/-- A send of the server to a client that was parked and is out. -/
theorem Served.sendReceived_client (h : Served S k.procTable buf client server queue)
    (h' : Served S k'.procTable buf' client' server' queue') (hc : c ≠ S)
    (hparked : client c = .parked false) (hout : client' c = .out) (s : Pid) :
    sendReceived k k' s c = [⟨s, c, readMessage k'.mem (linear k.procTable c (buf c))⟩] := by
  have hf := h.clients c hc
  rw [hparked] at hf
  have hf' := h'.clients c hc
  rw [hout] at hf'
  have hrecv : (k.procTable c).pFlags &&& RECEIVING ≠ 0 := by rw [hf.1]; decide
  have hdone : (k'.procTable c).pFlags &&& RECEIVING = 0 := by rw [hf'.1]; decide
  rw [sendReceived, if_pos ⟨hrecv, hdone⟩, hf.2.1]

theorem Served.sendReceived_due (h : Served S k.procTable buf client server queue) (hc : c ≠ S)
    (hnot : ∀ w, client c ≠ .parked w) (s : Pid) : sendReceived k k' s c = [] := by
  rw [sendReceived, if_neg]
  intro hr
  rw [(h.clients c hc).1] at hr
  obtain ⟨w, hw⟩ := (Client.flags_receiving (client c)).mp hr.1
  exact hnot w hw

theorem Served.sending_server (h : Served S k.procTable buf client server queue) :
    Sending (k.procTable S) ↔ ∃ c m, server = .sending c m := by
  rw [Sending, h.server.1]
  exact Server.flags_sending server

/-- The client `c` has left the queue. -/
theorem Served.completed_client (h : Served S k.procTable buf client server queue)
    (h' : Served S k'.procTable buf' client' server queue') (hc : c ≠ S)
    (hq : client c = .queued) (hq' : client' c ≠ .queued)
    (hsame : ∀ p ≠ c, client' p = client p) : completed k.procTable k'.procTable = [c] := by
  refine filter_slots_eq_singleton fun p => ?_
  by_cases hpS : p = S
  · subst hpS
    rw [h.sending_server, h'.sending_server]
    exact ⟨fun hx => absurd hx.1 hx.2, fun hx => absurd hx.symm hc⟩
  · rw [h.sending_client hpS, h'.sending_client hpS]
    constructor
    · intro hx
      by_contra hne
      rw [hsame p hne] at hx
      exact hx.2 hx.1
    · intro hx
      subst hx
      exact ⟨hq, hq'⟩

/-- The server has come out of its send. -/
theorem Served.completed_server {m : Addr}
    (h : Served S k.procTable buf client (.sending c m) queue)
    (h' : Served S k'.procTable buf' client' .ready queue')
    (hsame : ∀ p, client p = .queued → client' p = .queued) :
    completed k.procTable k'.procTable = [S] := by
  refine filter_slots_eq_singleton fun p => ?_
  by_cases hpS : p = S
  · subst hpS
    rw [h.sending_server, h'.sending_server]
    simp
  · rw [h.sending_client hpS, h'.sending_client hpS]
    exact ⟨fun hx => absurd (hsame p hx.1) hx.2, fun hx => absurd hx hpS⟩

/-- Nobody has come out of a send. -/
theorem Served.completed_none (h : Served S k.procTable buf client server queue)
    (h' : Served S k'.procTable buf' client' server' queue')
    (hsame : ∀ p, client p = .queued → client' p = .queued)
    (hserver : (∃ c m, server = .sending c m) → ∃ c m, server' = .sending c m) :
    completed k.procTable k'.procTable = [] := by
  refine filter_slots_eq_nil fun p hp => ?_
  by_cases hpS : p = S
  · subst hpS
    rw [h.sending_server, h'.sending_server] at hp
    exact hp.2 (hserver hp.1)
  · rw [h.sending_client hpS, h'.sending_client hpS] at hp
    exact hp.2 (hsame p hp.1)

end Observer

end SimpleOs
