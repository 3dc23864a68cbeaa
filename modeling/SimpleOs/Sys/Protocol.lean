import SimpleOs.Kernel.Server
import SimpleOs.Lib.RequestReply
import SimpleOs.Sys.Model

/-!
# The protocol of the system task

The calls of the clients and of `task_sys` are the steps of the protocol
`RequestReply`. `Follows` relates the two: the positions of the parties are read
off the process table (`Control`), and the messages on their way are where the
protocol says they are (`Contents`).

A call concerns one client at most. The lemmas on `Touches` say that the
messages of the others are left alone; `Contents.serves`, `Contents.replies` and
`Contents.waits` are the three things that can happen to the messages.
-/

namespace SimpleOs

open ByteMem RequestReply Transition

/-! ## The positions of the parties -/

/-- The position of a client in the protocol. -/
def Client.position : Client → CState
  | .free => .out
  | .out => .out
  | .queued => .queued
  | .due _ => .due
  | .parked _ => .parked

/-- The client is inside `send_recv`. -/
def Client.Busy (c : Client) : Prop := c.position ≠ .out

/-- The position of `task_sys` in the protocol. -/
def AtPhase (sysMsg : Addr) (pc : SysPc) (server : Server) : Phase Pid → Prop
  | .receive => pc = .receive ∧ server = .ready
  | .listening => pc = .serve ∧ server = .listening sysMsg
  | .serving _ => pc = .serve ∧ server = .ready
  | .replying c => pc = .receive ∧ server = .sending c sysMsg

/-- The parties are where the protocol has them. -/
structure Control (sysMsg : Addr) (s : SysState) (g : State Pid) (client : Pid → Client)
    (server : Server) : Prop where
  ipc : IpcInv s.k.procTable
  kReenter : s.k.kReenter = 0
  addr : sysMsg ≠ 0
  buf : ∀ p, (client p).Busy → s.buf p ≠ 0
  inv : Inv g
  served : Served TASK_SYS s.k.procTable s.buf client server g.queue
  clients : ∀ p, g.client p = (client p).position
  /-- The memory manager is not involved. -/
  calm : ∀ p, client p ≠ .due true ∧ client p ≠ .parked true
  task : client TASK_SYS = .out
  asked : ∀ p, s.asked p = true ↔ client p = .queued ∨ client p = .due false
  phase : AtPhase sysMsg s.pc server g.phase
  someone : ∃ c ≠ TASK_SYS, client c ≠ .free

/-- The part of a message that `task_sys` gives back. -/
def Message.body (m : Message) : Message := { m with source := 0, m3i1 := 0 }

/-- The messages and the history agree with the protocol. -/
structure Contents (sysMsg : Addr) (s : SysState) (g : State Pid) (client : Pid → Client) :
    Prop where
  apart : ∀ c d, c ≠ d → (client c).Busy → (client d).Busy →
    Separate (linear s.k.procTable c (s.buf c)) (linear s.k.procTable d (s.buf d))
  apartTask : ∀ c, (client c).Busy → Separate (linear s.k.procTable c (s.buf c)) sysMsg
  request : ∀ c, client c = .queued →
    (readMessage s.k.mem (linear s.k.procTable c (s.buf c))).source =
      BitVec.ofInt 32 (proc2pid c) ∧
    (readMessage s.k.mem (linear s.k.procTable c (s.buf c))).type = GET_TICKS
  serving : ∀ c, g.phase = .serving c →
    (readMessage s.k.mem sysMsg).source = BitVec.ofInt 32 (proc2pid c)
  replying : ∀ c, g.phase = .replying c →
    (readMessage s.k.mem sysMsg).source = BitVec.ofInt 32 (proc2pid TASK_SYS) ∧
    s.answers = s.replied.map (fun e => e.msg.retval) ++ [(readMessage s.k.mem sysMsg).retval]
  answers : (∀ c, g.phase ≠ .replying c) → s.answers = s.replied.map fun e => e.msg.retval
  type : ∀ c ∈ g.phase.inService, (readMessage s.k.mem sysMsg).type = GET_TICKS
  taken : g.taken = s.taken.map Event.src
  replied : g.replied = s.replied.map Event.dst
  source : ∀ e ∈ s.replied, e.src = TASK_SYS ∧
    e.msg.source = BitVec.ofInt 32 (proc2pid TASK_SYS) ∧ e.msg.type = GET_TICKS
  stream : ∀ c, between s.requests c TASK_SYS = between s.taken c TASK_SYS ++
    if client c = .queued then [readMessage s.k.mem (linear s.k.procTable c (s.buf c))] else []
  own : ∀ c, (between s.taken c TASK_SYS).map Message.body =
    (between s.replied TASK_SYS c).map Message.body ++
      if c ∈ g.phase.inService then [(readMessage s.k.mem sysMsg).body] else []

/-- The system follows the protocol. -/
def Follows (sysMsg : Addr) (s : SysState) (g : State Pid) : Prop :=
  ∃ client server, Control sysMsg s g client server ∧ Contents sysMsg s g client

section Positions

variable {sysMsg : Addr} {s : SysState} {g : State Pid} {client : Pid → Client} {server : Server}
  {c : Pid}

theorem Control.position_eq (h : Control sysMsg s g client server) {v : CState}
    (hc : g.client c = v) : (client c).position = v := (h.clients c).symm.trans hc

theorem Control.due (h : Control sysMsg s g client server) (hc : g.client c = .due) :
    client c = .due false := by
  have hp := h.position_eq hc
  cases hcl : client c with
  | due w =>
    cases w with
    | false => rfl
    | true => exact absurd hcl (h.calm c).1
  | _ => rw [hcl] at hp; cases hp

theorem Control.parked (h : Control sysMsg s g client server) (hc : g.client c = .parked) :
    client c = .parked false := by
  have hp := h.position_eq hc
  cases hcl : client c with
  | parked w =>
    cases w with
    | false => rfl
    | true => exact absurd hcl (h.calm c).2
  | _ => rw [hcl] at hp; cases hp

theorem Control.queued (h : Control sysMsg s g client server) (hc : g.client c = .queued) :
    client c = .queued := by
  have hp := h.position_eq hc
  cases hcl : client c with
  | queued => rfl
  | _ => rw [hcl] at hp; cases hp

/-- A ready process that has not sent a request is outside `send_recv`. -/
theorem Control.out (h : Control sysMsg s g client server) (hc : c ≠ TASK_SYS)
    (hready : (s.k.procTable c).pFlags = 0) (hasked : s.asked c = false) : client c = .out := by
  have hf := (h.served.clients c hc).1
  rw [hready] at hf
  have hnot : ¬ (client c = .queued ∨ client c = .due false) := by
    rw [← h.asked, hasked]
    decide
  cases hcl : client c with
  | out => rfl
  | free => rw [hcl] at hf; exact absurd hf (by decide)
  | queued => exact absurd (.inl hcl) hnot
  | due w =>
    cases w with
    | false => exact absurd (.inr hcl) hnot
    | true => exact absurd hcl (h.calm c).1
  | parked w =>
    cases w with
    | false => rw [hcl] at hf; exact absurd hf (by decide)
    | true => exact absurd hcl (h.calm c).2

/-- A ready process that has sent its request is between its two calls. -/
theorem Control.between_calls (h : Control sysMsg s g client server) (hc : c ≠ TASK_SYS)
    (hready : (s.k.procTable c).pFlags = 0) (hasked : s.asked c = true) :
    client c = .due false := by
  rcases (h.asked c).mp hasked with hq | hd
  · have hf := (h.served.clients c hc).1
    rw [hready, hq] at hf
    exact absurd hf (by decide)
  · exact hd

theorem Control.inCall (h : Control sysMsg s g client server) (hc : c ≠ TASK_SYS) :
    s.InCall c ↔ (client c).Busy := by
  rw [SysState.InCall, h.asked, (h.served.clients c hc).1, Client.flags_receiving]
  unfold Client.Busy
  cases hcl : client c with
  | due w =>
    cases w with
    | false => simp [Client.position]
    | true => exact absurd hcl (h.calm c).1
  | _ => simp [Client.position]

end Positions

/-! ## Before the call -/

section Elapse

variable {sysMsg : Addr} {s : SysState} {g : State Pid} {client : Pid → Client} {server : Server}
  {k : Machine}

theorem Control.elapsed (h : Control sysMsg s g client server) (hel : Elapsed sysMsg s k) :
    Control sysMsg { s with k := k } g client server := by
  refine ⟨?_, hel.kReenter.trans h.kReenter, h.addr, h.buf, h.inv, ?_, h.clients, h.calm, h.task,
    h.asked, h.phase, h.someone⟩
  · dsimp only
    rw [hel.table]
    exact h.ipc
  · dsimp only
    rw [hel.table]
    exact h.served

/-- The messages on their way are in use. -/
theorem Contents.elapsed (h : Contents sysMsg s g client)
    (hctl : Control sysMsg s g client server) (hel : Elapsed sysMsg s k) :
    Contents sysMsg { s with k := k } g client := by
  have hsys : readMessage k.mem sysMsg = readMessage s.k.mem sysMsg :=
    readMessage_frame fun a ha => hel.mem a (.inl ha)
  have hlin : ∀ p va, linear k.procTable p va = linear s.k.procTable p va := by
    intro p va
    rw [hel.table]
  have hmsg : ∀ c, client c = .queued →
      readMessage k.mem (linear k.procTable c (s.buf c)) =
        readMessage s.k.mem (linear s.k.procTable c (s.buf c)) := by
    intro c hc
    rw [hlin]
    have hne : c ≠ TASK_SYS := by
      intro heq
      rw [heq, hctl.task] at hc
      cases hc
    have hin : s.InCall c := .inl ((hctl.asked c).mpr (.inl hc))
    exact readMessage_frame fun a ha => hel.mem a (.inr ⟨c, hne, hin, ha⟩)
  refine ⟨fun c d hcd hc hd => ?_, fun c hc => ?_, fun c hc => ?_, fun c hc => ?_, fun c hc => ?_,
    h.answers, fun c hc => ?_, h.taken, h.replied, h.source, fun c => ?_, fun c => ?_⟩
  · dsimp only
    rw [hlin, hlin]
    exact h.apart c d hcd hc hd
  · dsimp only
    rw [hlin]
    exact h.apartTask c hc
  · dsimp only
    rw [hmsg c hc]
    exact h.request c hc
  · dsimp only
    rw [hsys]
    exact h.serving c hc
  · dsimp only
    rw [hsys]
    exact h.replying c hc
  · dsimp only
    rw [hsys]
    exact h.type c hc
  · dsimp only
    rw [h.stream c]
    by_cases hq : client c = .queued
    · rw [if_pos hq, if_pos hq, hmsg c hq]
    · rw [if_neg hq, if_neg hq]
  · dsimp only
    rw [hsys]
    exact h.own c

end Elapse

/-! ## A call about one client -/

section Advance

variable {sysMsg : Addr} {s s' : SysState} {g g' : State Pid} {client : Pid → Client}
  {server server' : Server} {c : Pid} {v : Client}

/-- The positions when the client `c` moves on to `v`. -/
theorem Control.advance (h : Control sysMsg s g client server) (hc : c ≠ TASK_SYS)
    (hv : v ≠ .free ∧ v ≠ .due true ∧ v ≠ .parked true) (hipc : IpcInv s'.k.procTable)
    (hk : s'.k.kReenter = 0) (hstep : Step g g')
    (hg : g'.client = Function.update g.client c v.position)
    (hserved : Served TASK_SYS s'.k.procTable s'.buf (Function.update client c v) server' g'.queue)
    (hbuf : ∀ p, p ≠ c → s'.buf p = s.buf p) (hbufc : s'.buf c ≠ 0)
    (hasked : ∀ p, p ≠ c → s'.asked p = s.asked p)
    (haskedc : s'.asked c = true ↔ v = .queued ∨ v = .due false)
    (hphase : AtPhase sysMsg s'.pc server' g'.phase) :
    Control sysMsg s' g' (Function.update client c v) server' := by
  refine ⟨hipc, hk, h.addr, fun p hp => ?_, h.inv.step hstep, hserved, fun p => ?_, fun p => ?_, ?_,
    fun p => ?_, hphase, ?_⟩
  · by_cases hpc : p = c
    · rw [hpc]
      exact hbufc
    · rw [Function.update_of_ne hpc] at hp
      rw [hbuf p hpc]
      exact h.buf p hp
  · rw [hg]
    by_cases hpc : p = c
    · rw [hpc, Function.update_self, Function.update_self]
    · rw [Function.update_of_ne hpc, Function.update_of_ne hpc]
      exact h.clients p
  · by_cases hpc : p = c
    · rw [hpc, Function.update_self]
      exact hv.2
    · rw [Function.update_of_ne hpc]
      exact h.calm p
  · rw [Function.update_of_ne hc.symm]
    exact h.task
  · by_cases hpc : p = c
    · rw [hpc, Function.update_self]
      exact haskedc
    · rw [hasked p hpc, Function.update_of_ne hpc]
      exact h.asked p
  · obtain ⟨x, hx, hlive⟩ := h.someone
    refine ⟨x, hx, ?_⟩
    by_cases hxc : x = c
    · rw [hxc, Function.update_self]
      exact hv.1
    · rw [Function.update_of_ne hxc]
      exact hlive

/-- A call that writes the message of the client `c` and that of `task_sys`. -/
structure Touches (sysMsg : Addr) (client : Pid → Client) (c : Pid) (s s' : SysState) : Prop where
  linear_eq : ∀ p va, linear s'.k.procTable p va = linear s.k.procTable p va
  buf : ∀ p, p ≠ c → s'.buf p = s.buf p
  mem : ∀ a, ¬ InMessage (linear s.k.procTable c (s'.buf c)) a → ¬ InMessage sysMsg a →
    s'.k.mem a = s.k.mem a
  apart : ∀ d, d ≠ c → (client d).Busy → Separate (linear s.k.procTable c (s'.buf c))
    (linear s.k.procTable d (s.buf d))
  apartTask : Separate (linear s.k.procTable c (s'.buf c)) sysMsg

/-- The messages of the other clients are left alone. -/
theorem Touches.kept (ht : Touches sysMsg client c s s') (h : Contents sysMsg s g client) {d : Pid}
    (hdc : d ≠ c) (hd : (client d).Busy) :
    readMessage s'.k.mem (linear s'.k.procTable d (s'.buf d)) =
      readMessage s.k.mem (linear s.k.procTable d (s.buf d)) := by
  rw [ht.linear_eq, ht.buf d hdc]
  exact readMessage_kept ht.mem (ht.apart d hdc hd).symm (h.apartTask d hd)

theorem Touches.apart' (ht : Touches sysMsg client c s s') (h : Contents sysMsg s g client)
    (p d : Pid) (hpd : p ≠ d) (hp : (Function.update client c v p).Busy)
    (hd : (Function.update client c v d).Busy) :
    Separate (linear s'.k.procTable p (s'.buf p)) (linear s'.k.procTable d (s'.buf d)) := by
  rw [ht.linear_eq, ht.linear_eq]
  by_cases hpc : p = c
  · subst hpc
    rw [Function.update_of_ne hpd.symm] at hd
    rw [ht.buf d hpd.symm]
    exact ht.apart d hpd.symm hd
  · rw [Function.update_of_ne hpc] at hp
    rw [ht.buf p hpc]
    by_cases hdc : d = c
    · subst hdc
      exact (ht.apart p hpd hp).symm
    · rw [Function.update_of_ne hdc] at hd
      rw [ht.buf d hdc]
      exact h.apart p d hpd hp hd

theorem Touches.apartTask' (ht : Touches sysMsg client c s s') (h : Contents sysMsg s g client)
    (p : Pid) (hp : (Function.update client c v p).Busy) :
    Separate (linear s'.k.procTable p (s'.buf p)) sysMsg := by
  rw [ht.linear_eq]
  by_cases hpc : p = c
  · subst hpc
    exact ht.apartTask
  · rw [Function.update_of_ne hpc] at hp
    rw [ht.buf p hpc]
    exact h.apartTask p hp

theorem Client.busy_queued {c : Client} (h : c = .queued) : c.Busy := by
  subst h
  exact (by decide : CState.queued ≠ CState.out)

theorem Touches.request' (ht : Touches sysMsg client c s s') (h : Contents sysMsg s g client)
    (hv : v = .queued →
      (readMessage s'.k.mem (linear s'.k.procTable c (s'.buf c))).source =
        BitVec.ofInt 32 (proc2pid c) ∧
      (readMessage s'.k.mem (linear s'.k.procTable c (s'.buf c))).type = GET_TICKS)
    (p : Pid) (hp : Function.update client c v p = .queued) :
    (readMessage s'.k.mem (linear s'.k.procTable p (s'.buf p))).source =
      BitVec.ofInt 32 (proc2pid p) ∧
    (readMessage s'.k.mem (linear s'.k.procTable p (s'.buf p))).type = GET_TICKS := by
  by_cases hpc : p = c
  · subst hpc
    rw [Function.update_self] at hp
    exact hv hp
  · rw [Function.update_of_ne hpc] at hp
    rw [ht.kept h hpc (Client.busy_queued hp)]
    exact h.request p hp

/-- The streams of the other clients. -/
theorem Touches.stream' (ht : Touches sysMsg client c s s') (h : Contents sysMsg s g client)
    (reqs tks : List Event) (hreqs : s'.requests = s.requests ++ reqs)
    (htks : s'.taken = s.taken ++ tks) (hreq : ∀ e ∈ reqs, e.src = c) (htk : ∀ e ∈ tks, e.src = c)
    (hc : between s'.requests c TASK_SYS = between s'.taken c TASK_SYS ++
      if v = .queued then [readMessage s'.k.mem (linear s'.k.procTable c (s'.buf c))] else [])
    (p : Pid) :
    between s'.requests p TASK_SYS = between s'.taken p TASK_SYS ++
      if Function.update client c v p = .queued then
        [readMessage s'.k.mem (linear s'.k.procTable p (s'.buf p))] else [] := by
  by_cases hpc : p = c
  · subst hpc
    rw [Function.update_self]
    exact hc
  · have hreqs' : between reqs p TASK_SYS = [] :=
      between_eq_nil fun e he hx => hpc (hx.1.symm.trans (hreq e he))
    have htks' : between tks p TASK_SYS = [] :=
      between_eq_nil fun e he hx => hpc (hx.1.symm.trans (htk e he))
    rw [Function.update_of_ne hpc, hreqs, htks, between_append, between_append, hreqs', htks',
      List.append_nil, List.append_nil, h.stream p]
    by_cases hq : client p = .queued
    · rw [if_pos hq, if_pos hq, ht.kept h hpc (Client.busy_queued hq)]
    · rw [if_neg hq, if_neg hq]

/-- The replies of the other clients, when `task_sys` has to do with `c` only. -/
theorem Contents.own_other (h : Contents sysMsg s g client) (tks rps : List Event)
    (htks : s'.taken = s.taken ++ tks) (hrps : s'.replied = s.replied ++ rps)
    (htk : ∀ e ∈ tks, e.src = c) (hrp : ∀ e ∈ rps, e.dst = c)
    (hold : ∀ x ∈ g.phase.inService, x = c) (hnew : ∀ x ∈ g'.phase.inService, x = c)
    (hc : (between s'.taken c TASK_SYS).map Message.body =
      (between s'.replied TASK_SYS c).map Message.body ++
        if c ∈ g'.phase.inService then [(readMessage s'.k.mem sysMsg).body] else []) (p : Pid) :
    (between s'.taken p TASK_SYS).map Message.body =
      (between s'.replied TASK_SYS p).map Message.body ++
        if p ∈ g'.phase.inService then [(readMessage s'.k.mem sysMsg).body] else [] := by
  by_cases hpc : p = c
  · subst hpc
    exact hc
  · have htake : between tks p TASK_SYS = [] :=
      between_eq_nil fun e he hx => hpc (hx.1.symm.trans (htk e he))
    have hrep : between rps TASK_SYS p = [] :=
      between_eq_nil fun e he hx => hpc (hx.2.symm.trans (hrp e he))
    have hown := h.own p
    rw [if_neg fun hx => hpc (hold p hx)] at hown
    rw [if_neg fun hx => hpc (hnew p hx), htks, hrps, between_append, between_append, htake, hrep]
    simpa only [List.append_nil] using hown

/-! ### What a call does to the messages -/

theorem inService_eq_nil {ph : Phase Pid} (h : ph.inService = []) (x : Pid) : ph ≠ .replying x := by
  intro hx
  rw [hx] at h
  cases h

/-- `task_sys` takes the request `M` of `c`. -/
theorem Contents.serves (h : Contents sysMsg s g client) (ht : Touches sysMsg client c s s')
    (hnone : g.phase.inService = []) {M : Message}
    (hsrc : M.source = BitVec.ofInt 32 (proc2pid c)) (htype : M.type = GET_TICKS)
    (hmsg : readMessage s'.k.mem sysMsg = M) (reqs : List Event)
    (hreqs : s'.requests = s.requests ++ reqs) (hreq : ∀ e ∈ reqs, e.src = c)
    (htk : s'.taken = s.taken ++ [⟨c, TASK_SYS, M⟩]) (hrp : s'.replied = s.replied)
    (hans : s'.answers = s.answers)
    (hstream : between s'.requests c TASK_SYS = between s'.taken c TASK_SYS)
    (hphase : g'.phase = .serving c) (hgt : g'.taken = g.taken ++ [c])
    (hgr : g'.replied = g.replied) :
    Contents sysMsg s' g' (Function.update client c (.due false)) := by
  have hsrc_e : ∀ e ∈ [(⟨c, TASK_SYS, M⟩ : Event)], e.src = c := by simp
  have hserv : g'.phase.inService = [c] := by rw [hphase]; rfl
  refine ⟨ht.apart' h, ht.apartTask' h, ht.request' h nofun, fun x hx => ?_, fun x hx => ?_,
    fun _ => ?_, fun x _ => ?_, ?_, ?_, ?_, ?_, ?_⟩
  · rw [hphase] at hx
    cases hx
    rw [hmsg]
    exact hsrc
  · rw [hphase] at hx
    cases hx
  · rw [hans, hrp]
    exact h.answers (inService_eq_nil hnone)
  · rw [hmsg]
    exact htype
  · rw [hgt, htk, h.taken, List.map_append]
    rfl
  · rw [hgr, hrp]
    exact h.replied
  · rw [hrp]
    exact h.source
  · refine ht.stream' h _ _ hreqs htk hreq hsrc_e ?_
    rw [hstream, if_neg nofun, List.append_nil]
  · refine h.own_other _ [] htk (by rw [hrp, List.append_nil]) hsrc_e nofun ?_ ?_ ?_
    · rw [hnone]
      nofun
    · rw [hserv]
      simp
    · have hown := h.own c
      rw [hnone, if_neg List.not_mem_nil, List.append_nil] at hown
      rw [hserv, if_pos (List.mem_singleton_self c), htk, hrp, between_append, between_self,
        List.map_append, hown, hmsg]
      rfl

/-- The reply `R` arrives at `c`. -/
theorem Contents.replies (h : Contents sysMsg s g client) (ht : Touches sysMsg client c s s')
    (hserv : g.phase.inService = [c]) {R : Message}
    (hsrc : R.source = BitVec.ofInt 32 (proc2pid TASK_SYS))
    (hbody : R.body = (readMessage s.k.mem sysMsg).body) (hreqs : s'.requests = s.requests)
    (htk : s'.taken = s.taken) (hrp : s'.replied = s.replied ++ [⟨TASK_SYS, c, R⟩])
    (hans : s'.answers = s.replied.map (fun e => e.msg.retval) ++ [R.retval])
    (hstream : client c ≠ .queued) (hphase : g'.phase = .receive) (hgt : g'.taken = g.taken)
    (hgr : g'.replied = g.replied ++ [c]) :
    Contents sysMsg s' g' (Function.update client c .out) := by
  have hdst : ∀ e ∈ [(⟨TASK_SYS, c, R⟩ : Event)], e.dst = c := by simp
  have htype : R.type = GET_TICKS := by
    have hold := h.type c (by rw [hserv]; exact List.mem_singleton_self c)
    exact (congrArg Message.type hbody).trans hold
  have hserv' : g'.phase.inService = [] := by rw [hphase]; rfl
  refine ⟨ht.apart' h, ht.apartTask' h, ht.request' h nofun, fun x hx => ?_, fun x hx => ?_,
    fun _ => ?_, fun x hx => ?_, ?_, ?_, fun e he => ?_, ?_, ?_⟩
  · rw [hphase] at hx
    cases hx
  · rw [hphase] at hx
    cases hx
  · rw [hans, hrp, List.map_append]
    rfl
  · rw [hserv'] at hx
    exact absurd hx List.not_mem_nil
  · rw [hgt, htk]
    exact h.taken
  · rw [hgr, hrp, h.replied, List.map_append]
    rfl
  · rw [hrp, List.mem_append, List.mem_singleton] at he
    rcases he with he | rfl
    · exact h.source e he
    · exact ⟨rfl, hsrc, htype⟩
  · refine ht.stream' h [] [] (by rw [hreqs, List.append_nil])
      (by rw [htk, List.append_nil]) nofun nofun ?_
    rw [hreqs, htk, h.stream c, if_neg hstream, if_neg nofun]
  · refine h.own_other [] _ (by rw [htk, List.append_nil]) hrp nofun hdst ?_ ?_ ?_
    · rw [hserv]
      simp
    · rw [hserv']
      nofun
    · have hown := h.own c
      rw [hserv, if_pos (List.mem_singleton_self c)] at hown
      rw [hserv', if_neg List.not_mem_nil, htk, hrp, between_append, between_self, List.map_append,
        hown, List.append_nil, List.map_singleton, hbody]

/-- The client `c` waits; `task_sys` is not concerned. -/
theorem Contents.waits (h : Contents sysMsg s g client) (ht : Touches sysMsg client c s s')
    (hsys : readMessage s'.k.mem sysMsg = readMessage s.k.mem sysMsg) (reqs : List Event)
    (hreqs : s'.requests = s.requests ++ reqs) (hreq : ∀ e ∈ reqs, e.src = c)
    (htk : s'.taken = s.taken) (hrp : s'.replied = s.replied) (hans : s'.answers = s.answers)
    (hv : v = .queued →
      (readMessage s'.k.mem (linear s'.k.procTable c (s'.buf c))).source =
        BitVec.ofInt 32 (proc2pid c) ∧
      (readMessage s'.k.mem (linear s'.k.procTable c (s'.buf c))).type = GET_TICKS)
    (hstream : between s'.requests c TASK_SYS = between s'.taken c TASK_SYS ++
      if v = .queued then [readMessage s'.k.mem (linear s'.k.procTable c (s'.buf c))] else [])
    (hphase : g'.phase = g.phase) (hgt : g'.taken = g.taken) (hgr : g'.replied = g.replied) :
    Contents sysMsg s' g' (Function.update client c v) := by
  refine ⟨ht.apart' h, ht.apartTask' h, ht.request' h hv, fun x hx => ?_, fun x hx => ?_,
    fun hx => ?_, fun x hx => ?_, ?_, ?_, ?_, ?_, fun x => ?_⟩
  · rw [hphase] at hx
    rw [hsys]
    exact h.serving x hx
  · rw [hphase] at hx
    rw [hsys, hans, hrp]
    exact h.replying x hx
  · rw [hphase] at hx
    rw [hans, hrp]
    exact h.answers hx
  · rw [hphase] at hx
    rw [hsys]
    exact h.type x hx
  · rw [hgt, htk]
    exact h.taken
  · rw [hgr, hrp]
    exact h.replied
  · rw [hrp]
    exact h.source
  · exact ht.stream' h _ [] hreqs (by rw [htk, List.append_nil]) hreq nofun hstream
  · rw [hphase, htk, hrp, hsys]
    exact h.own x

/-- `task_sys` writes its own message only. -/
theorem Contents.task (h : Contents sysMsg s g client)
    (hlin : ∀ p va, linear s'.k.procTable p va = linear s.k.procTable p va) (hbuf : s'.buf = s.buf)
    (hmem : ∀ a, ¬ InMessage sysMsg a → s'.k.mem a = s.k.mem a)
    (hreqs : s'.requests = s.requests) (htk : s'.taken = s.taken) (hrp : s'.replied = s.replied)
    (hgt : g'.taken = g.taken) (hgr : g'.replied = g.replied)
    (hserving : ∀ c, g'.phase = .serving c →
      (readMessage s'.k.mem sysMsg).source = BitVec.ofInt 32 (proc2pid c))
    (hreplying : ∀ c, g'.phase = .replying c →
      (readMessage s'.k.mem sysMsg).source = BitVec.ofInt 32 (proc2pid TASK_SYS) ∧
      s'.answers = s.replied.map (fun e => e.msg.retval) ++ [(readMessage s'.k.mem sysMsg).retval])
    (hanswers : (∀ c, g'.phase ≠ .replying c) →
      s'.answers = s.replied.map fun e => e.msg.retval)
    (hserv : g'.phase.inService = g.phase.inService)
    (htype : ∀ c ∈ g.phase.inService, (readMessage s'.k.mem sysMsg).type = GET_TICKS)
    (hbody : ∀ c ∈ g.phase.inService,
      (readMessage s'.k.mem sysMsg).body = (readMessage s.k.mem sysMsg).body) :
    Contents sysMsg s' g' client := by
  have hkept : ∀ d, (client d).Busy →
      readMessage s'.k.mem (linear s'.k.procTable d (s'.buf d)) =
        readMessage s.k.mem (linear s.k.procTable d (s.buf d)) := by
    intro d hd
    rw [hlin, hbuf]
    exact readMessage_frame fun a ha => hmem a (h.apartTask d hd a ha)
  refine ⟨fun c d hcd hc hd => ?_, fun c hc => ?_, fun c hc => ?_, hserving, ?_, ?_, ?_, ?_, ?_, ?_,
    fun c => ?_, fun c => ?_⟩
  · rw [hlin, hlin, hbuf]
    exact h.apart c d hcd hc hd
  · rw [hlin, hbuf]
    exact h.apartTask c hc
  · rw [hkept c (Client.busy_queued hc)]
    exact h.request c hc
  · rw [hrp]
    exact hreplying
  · rw [hrp]
    exact hanswers
  · rw [hserv]
    exact htype
  · rw [hgt, htk]
    exact h.taken
  · rw [hgr, hrp]
    exact h.replied
  · rw [hrp]
    exact h.source
  · rw [hreqs, htk, h.stream c]
    by_cases hq : client c = .queued
    · rw [if_pos hq, if_pos hq, hkept c (Client.busy_queued hq)]
    · rw [if_neg hq, if_neg hq]
  · rw [hserv, htk, hrp, h.own c]
    by_cases hin : c ∈ g.phase.inService
    · rw [if_pos hin, if_pos hin, hbody c hin]
    · rw [if_neg hin, if_neg hin]

end Advance

end SimpleOs
