import SimpleOs.Sys.Protocol

/-!
# Every request gets its own reply

Each call of a client or of `task_sys` is a step of the protocol
(`Follows.step`). The invariant of the protocol and its rank then give what is
true of every run:

* no call panics, trips an assertion or leaves nobody to run;
* the requests taken are the replies that have arrived and at most one more;
* a client's replies are the answers to its own requests, in order;
* a client inside `send_recv` gets its reply in every infinite run.
-/

namespace SimpleOs

open ByteMem RequestReply Transition

/-! ## Where `task_sys` is -/

section Phases

variable {sysMsg b : Addr} {pc : SysPc} {server : Server} {ph : Phase Pid} {c : Pid}

theorem AtPhase.listening (h : AtPhase sysMsg pc server ph) (hs : server = .listening b) :
    ph = .listening ∧ pc = .serve ∧ b = sysMsg := by
  subst hs
  cases ph with
  | listening =>
    injection h.2 with hb
    exact ⟨rfl, h.1, hb⟩
  | receive => cases h.2
  | serving x => cases h.2
  | replying x => cases h.2

theorem AtPhase.not_listening (h : AtPhase sysMsg pc server ph) (hs : ∀ b, server ≠ .listening b) :
    ph ≠ .listening := by
  intro hp
  subst hp
  exact hs _ h.2

theorem AtPhase.sending (h : AtPhase sysMsg pc server ph) (hs : server = .sending c b) :
    ph = .replying c ∧ pc = .receive ∧ b = sysMsg := by
  subst hs
  cases ph with
  | replying x =>
    injection h.2 with hx hb
    exact ⟨by rw [hx], h.1, hb⟩
  | receive => cases h.2
  | listening => cases h.2
  | serving x => cases h.2

theorem AtPhase.not_sending (h : AtPhase sysMsg pc server ph) (hs : ∀ b, server ≠ .sending c b) :
    ph ≠ .replying c := by
  intro hp
  subst hp
  exact hs _ h.2

/-- A ready `task_sys` at its receive serves nobody. -/
theorem AtPhase.receive (h : AtPhase sysMsg .receive server ph) (hs : server = .ready) :
    ph = .receive := by
  subst hs
  cases ph with
  | receive => rfl
  | listening => cases h.2
  | serving x => cases h.1
  | replying x => cases h.2

/-- A ready `task_sys` behind its receive serves a client. -/
theorem AtPhase.serve (h : AtPhase sysMsg .serve server ph) (hs : server = .ready) :
    ∃ c, ph = .serving c := by
  subst hs
  cases ph with
  | receive => cases h.1
  | listening => cases h.2
  | serving x => exact ⟨x, rfl⟩
  | replying x => cases h.2

theorem Server.ready_of_flags {s : Server} (h : s.flags = 0) : s = .ready := by
  cases s with
  | ready => rfl
  | listening m => exact absurd h (by simp [Server.flags])
  | sending c m => exact absurd h (by simp [Server.flags])

end Phases

/-! ## The calls -/

section Calls

variable {sysMsg : Addr} {s : SysState} {g : State Pid} {client : Pid → Client} {server : Server}
  {k' : Machine} {c : Pid} {m : Addr}

theorem Control.linear_task (h : Control sysMsg s g client server) (va : Addr) :
    linear s.k.procTable TASK_SYS va = va := by
  rw [linear, h.ipc.flat TASK_SYS (by decide)]
  exact BitVec.zero_add va

theorem Control.not_task (h : Control sysMsg s g client server) (hc : (client c).Busy) :
    c ≠ TASK_SYS := by
  intro hx
  rw [hx, h.task] at hc
  exact hc rfl

/-- The processes and the nesting depth after a valid call. -/
theorem Control.sysStep (h : Control sysMsg s g client server) (hs : SysStep s.k k') :
    IpcInv k'.procTable ∧ k'.kReenter = 0 :=
  ⟨h.ipc.sysStep hs, hs.kReenter.trans h.kReenter⟩

/-- A client's own message is apart from those in use. -/
theorem Composed.touches (hc : Composed sysMsg s s.k c m) (h : Control sysMsg s g client server)
    {s' : SysState} (hlin : ∀ p va, linear s'.k.procTable p va = linear s.k.procTable p va)
    (hbuf : s'.buf = Function.update s.buf c m)
    (hmem : ∀ a, ¬ InMessage (linear s.k.procTable c m) a → ¬ InMessage sysMsg a →
      s'.k.mem a = s.k.mem a) : Touches sysMsg client c s s' := by
  have hself : s'.buf c = m := by rw [hbuf, Function.update_self]
  refine ⟨hlin, fun p hp => ?_, ?_, fun d _ hd => ?_, ?_⟩
  · rw [hbuf, Function.update_of_ne hp]
  · rw [hself]
    exact hmem
  · rw [hself]
    intro a ha hda
    have hne := h.not_task hd
    exact hc.own a ha (.inr ⟨d, hne, (h.inCall hne).mpr hd, hda⟩)
  · rw [hself]
    intro a ha hsa
    exact hc.own a ha (.inl hsa)

/-- A client sends its request. -/
theorem Follows.ask (h : Control sysMsg s g client server) (hcont : Contents sysMsg s g client)
    (hc : Composed sysMsg s s.k c m) (hcall : askSys s.k c m = .ok k') :
    ∃ g', Step g g' ∧ Follows sysMsg (s.afterAsk s.k k' c m) g' := by
  have hout := h.out hc.client hc.ready hc.out
  have hgout : g.client c = .out := by rw [h.clients, hout]; rfl
  have heff : SendEffect s.k c TASK_SYS m k' := sysSendrec_send hcall
  obtain ⟨hipc, hk⟩ := h.sysStep (.call c SEND (proc2pid TASK_SYS) m hc.ready
    (.inl ⟨rfl, TASK_SYS, hc.client.symm, rfl⟩) hc.addr hcall)
  have hserved := h.served.rebuf hout m
  have hbufc : Function.update s.buf c m c = m := Function.update_self ..
  have hne : Function.update s.buf c m c ≠ 0 := by rw [hbufc]; exact hc.addr
  have hstamp : readMessage (stampSource s.k c m).mem (linear s.k.procTable c m) = passed s.k c m :=
    stampSource_message s.k c m
  have hsrc : (passed s.k c m).source = BitVec.ofInt 32 (proc2pid c) := rfl
  have htype : (passed s.k c m).type = GET_TICKS := hc.type
  have hnq : client c ≠ .queued := by rw [hout]; nofun
  have hstream := hcont.stream c
  rw [if_neg hnq, List.append_nil] at hstream
  have hcases := hserved.client_send hc.client hout (by rw [hbufc]; exact heff)
  rw [hbufc] at hcases
  rcases hcases with ⟨b, hb, hmem, hserved'⟩ | ⟨hnb, hmem, hserved'⟩
  · -- `task_sys` was listening
    obtain ⟨hphase, hpc, rfl⟩ := h.phase.listening hb
    rw [h.linear_task] at hmem
    have hobs : sendReceived s.k k' c TASK_SYS = [⟨c, TASK_SYS, readMessage k'.mem b⟩] := by
      rw [hb] at hserved
      rw [hserved.sendReceived_server hserved', h.linear_task]
    have ht : Touches b client c s (s.afterAsk s.k k' c m) := by
      refine hc.touches h heff.linear_eq rfl fun a ha hsa => ?_
      rw [SysState.afterAsk, hmem]
      exact transfer_kept ha hsa
    have hmsg : readMessage k'.mem b = passed s.k c m := by
      have hsep : Separate (linear s.k.procTable c m) b := hbufc ▸ ht.apartTask
      rw [hmem, readMessage_copy hsep.symm.noForwardOverlap, hstamp]
    rw [hmsg] at hobs
    refine ⟨_, .sendMeets c hgout hphase, Function.update client c (.due false), .ready, ?_, ?_⟩
    · refine h.advance hc.client (by decide) hipc hk (.sendMeets c hgout hphase) rfl hserved'
        (fun p hp => Function.update_of_ne hp _ _) hne
        (fun p hp => Function.update_of_ne hp _ _) ?_ ⟨hpc, rfl⟩
      simp [SysState.afterAsk]
    · refine hcont.serves ht (by rw [hphase]; rfl) hsrc htype hmsg _ rfl (by simp)
        (by rw [SysState.afterAsk, hobs]) rfl rfl ?_ rfl rfl rfl
      rw [SysState.afterAsk, hobs, between_append, between_append, hstream]
  · -- `task_sys` is doing something else
    have hobs : sendReceived s.k k' c TASK_SYS = [] := h.served.sendReceived_busy hnb c
    have hphase := h.phase.not_listening hnb
    have ht : Touches sysMsg client c s (s.afterAsk s.k k' c m) := by
      refine hc.touches h heff.linear_eq rfl fun a ha _ => ?_
      rw [SysState.afterAsk, hmem]
      exact stampSource_kept ha
    have hmsg : readMessage k'.mem (linear k'.procTable c (Function.update s.buf c m c)) =
        passed s.k c m := by
      rw [hbufc, heff.linear_eq, hmem, hstamp]
    refine ⟨_, .sendQueues c hgout hphase, Function.update client c .queued, server, ?_, ?_⟩
    · refine h.advance hc.client (by decide) hipc hk (.sendQueues c hgout hphase) rfl hserved'
        (fun p hp => Function.update_of_ne hp _ _) hne
        (fun p hp => Function.update_of_ne hp _ _) ?_ h.phase
      simp [SysState.afterAsk]
    · refine hcont.waits ht ?_ _ rfl (by simp) (by rw [SysState.afterAsk, hobs, List.append_nil])
        rfl rfl (fun _ => ?_) ?_ rfl rfl rfl
      · -- the message of `task_sys` is apart from the client's
        refine readMessage_frame fun a ha => ?_
        have hsep : Separate (linear s.k.procTable c m) sysMsg := hbufc ▸ ht.apartTask
        rw [SysState.afterAsk, hmem]
        exact stampSource_kept fun hca => hsep a hca ha
      · rw [SysState.afterAsk, hmsg]
        exact ⟨hsrc, htype⟩
      · rw [SysState.afterAsk, hobs, List.append_nil, between_append, between_self, hstream,
          if_pos rfl, hmsg]

/-- The message of a client inside `send_recv` stays where it is. -/
theorem Contents.touches (hcont : Contents sysMsg s g client) (hc : (client c).Busy) {s' : SysState}
    (hlin : ∀ p va, linear s'.k.procTable p va = linear s.k.procTable p va)
    (hbuf : s'.buf = s.buf)
    (hmem : ∀ a, ¬ InMessage (linear s.k.procTable c (s.buf c)) a → ¬ InMessage sysMsg a →
      s'.k.mem a = s.k.mem a) : Touches sysMsg client c s s' := by
  refine ⟨hlin, fun p _ => ?_, ?_, fun d hd hdb => ?_, ?_⟩
  · rw [hbuf]
  · rw [hbuf]
    exact hmem
  · rw [hbuf]
    exact hcont.apart c d hd.symm hc hdb
  · rw [hbuf]
    exact hcont.apartTask c hc

theorem queued_update {c p : Pid} {v : Client} (hc : client c ≠ .queued) (hp : client p = .queued) :
    Function.update client c v p = .queued := by
  have hpc : p ≠ c := by
    intro hx
    exact hc (hx ▸ hp)
  rw [Function.update_of_ne hpc]
  exact hp

/-- A client asks for its reply. -/
theorem Follows.await (h : Control sysMsg s g client server) (hcont : Contents sysMsg s g client)
    (hc : c ≠ TASK_SYS) (hready : (s.k.procTable c).pFlags = 0) (hasked : s.asked c = true)
    (hcall : awaitSys s.k c (s.buf c) = .ok k') :
    ∃ g', Step g g' ∧ Follows sysMsg (s.afterAwait s.k k' c) g' := by
  have hdue := h.between_calls hc hready hasked
  have hgdue : g.client c = .due := by rw [h.clients, hdue]; rfl
  have hbusy : (client c).Busy := by rw [hdue]; exact (by decide : CState.due ≠ CState.out)
  have hbuf := h.buf c hbusy
  have heff : ReceiveEffect s.k c (proc2pid TASK_SYS) (s.buf c) k' :=
    sysSendrec_receive (h.ipc.noInt c) hcall
  obtain ⟨hipc, hk⟩ := h.sysStep (.call c RECEIVE (proc2pid TASK_SYS) (s.buf c) hready
    (.inr ⟨rfl, .inr ⟨TASK_SYS, hc.symm, rfl⟩⟩) hbuf hcall)
  have hnq : client c ≠ .queued := by simp [hdue]
  have hsep := hcont.apartTask c hbusy
  rcases h.served.client_receive hc hdue heff with
    ⟨b, hb, hmem, hserved'⟩ | ⟨hnb, hmem, hserved'⟩
  · -- `task_sys` was waiting with the reply
    obtain ⟨hphase, hpc, rfl⟩ := h.phase.sending hb
    rw [h.linear_task] at hmem
    obtain ⟨hsrc, hans⟩ := hcont.replying c hphase
    have hmsg : readMessage k'.mem (linear s.k.procTable c (s.buf c)) = readMessage s.k.mem b := by
      rw [hmem, readMessage_copy hsep.noForwardOverlap]
      exact readMessage_frame fun a ha => stampSource_kept fun hca => hsep a hca ha
    have hobs : receiveReceived s.k k' c (s.buf c) = [⟨TASK_SYS, c, readMessage s.k.mem b⟩] := by
      have hserved := h.served
      rw [hb] at hserved
      rw [receiveReceived, hserved.completed_server hserved' fun p => queued_update hnq, hmsg]
      rfl
    have ht : Touches b client c s (s.afterAwait s.k k' c) := by
      refine hcont.touches hbusy heff.linear_eq rfl fun a ha _ => ?_
      rw [SysState.afterAwait, hmem]
      exact transfer_kept ha ha
    refine ⟨_, .receiveMeets c hgdue hphase, Function.update client c .out, .ready, ?_, ?_⟩
    · refine h.advance hc (by decide) hipc hk (.receiveMeets c hgdue hphase) rfl hserved'
        (fun p _ => rfl) hbuf (fun p hp => Function.update_of_ne hp _ _) ?_ ⟨hpc, rfl⟩
      simp [SysState.afterAwait]
    · refine hcont.replies ht (by rw [hphase]; rfl) hsrc rfl rfl rfl ?_ hans hnq rfl rfl rfl
      rw [SysState.afterAwait, hobs]
  · -- the reply is still to come
    have hphase := h.phase.not_sending hnb
    have hobs : receiveReceived s.k k' c (s.buf c) = [] := by
      rw [receiveReceived, h.served.completed_none hserved' (fun p => queued_update hnq) id]
      rfl
    have ht : Touches sysMsg client c s (s.afterAwait s.k k' c) := by
      refine hcont.touches hbusy heff.linear_eq rfl fun a ha _ => ?_
      rw [SysState.afterAwait, hmem]
      exact stampSource_kept ha
    refine ⟨_, .receiveParks c hgdue hphase, Function.update client c (.parked false), server, ?_,
      ?_⟩
    · refine h.advance hc (by decide) hipc hk (.receiveParks c hgdue hphase) rfl hserved'
        (fun p _ => rfl) hbuf (fun p hp => Function.update_of_ne hp _ _) ?_ h.phase
      simp [SysState.afterAwait]
    · refine hcont.waits ht ?_ [] (List.append_nil _).symm (by simp) rfl
        (by rw [SysState.afterAwait, hobs, List.append_nil]) rfl (by simp) ?_ rfl rfl rfl
      · refine readMessage_frame fun a ha => ?_
        rw [SysState.afterAwait, hmem]
        exact stampSource_kept fun hca => hsep a hca ha
      · rw [SysState.afterAwait, hcont.stream c, if_neg hnq, if_neg (by simp)]

/-- `task_sys` receives. -/
theorem Follows.receive {pc' : SysPc} (h : Control sysMsg s g client server)
    (hcont : Contents sysMsg s g client) (hpc : s.pc = .receive)
    (hready : (s.k.procTable TASK_SYS).pFlags = 0)
    (hcall : taskSysStep sysMsg s.k .receive = .ok (k', pc')) :
    ∃ g', Step g g' ∧ Follows sysMsg (s.afterReceive sysMsg s.k k' pc') g' := by
  obtain ⟨rfl, hcall⟩ := taskSysStep_receive hcall
  set k₁ : Machine := { s.k with mem := pAsmMemset s.k.mem sysMsg 0 sizeofMessage } with hk₁
  have hclear : ∀ a, ¬ InMessage sysMsg a → k₁.mem a = s.k.mem a := fun a ha => fill_out ha
  have hserver : server = .ready := Server.ready_of_flags (h.served.server.1.symm.trans hready)
  have hphase : g.phase = .receive := AtPhase.receive (hpc ▸ h.phase) hserver
  have heff : ReceiveEffect k₁ TASK_SYS ANY sysMsg k' :=
    sysSendrec_receive (h.ipc.noInt TASK_SYS) hcall
  have hlin : ∀ p va, linear k'.procTable p va = linear s.k.procTable p va := heff.linear_eq
  obtain ⟨hipc, hk⟩ : IpcInv k'.procTable ∧ k'.kReenter = 0 := by
    have hstep : SysStep k₁ k' := .call TASK_SYS RECEIVE ANY sysMsg hready
      (.inr ⟨rfl, .inl rfl⟩) h.addr hcall
    exact ⟨IpcInv.sysStep (k := k₁) h.ipc hstep, hstep.kReenter.trans h.kReenter⟩
  have hserved : Served TASK_SYS k₁.procTable s.buf client .ready g.queue := hserver ▸ h.served
  have htask : ∀ va, linear k₁.procTable TASK_SYS va = va := h.linear_task
  rcases hserved.server_receive heff with
    ⟨f, rest, hqueue, hf, hq, hmem, hserved'⟩ | ⟨hqueue, hmem, hserved'⟩
  · -- the first client of the queue
    have hbusy := Client.busy_queued hq
    have hsep := hcont.apartTask f hbusy
    rw [htask] at hmem
    have hmsg : readMessage k'.mem sysMsg =
        readMessage s.k.mem (linear s.k.procTable f (s.buf f)) := by
      rw [hmem, readMessage_copy hsep.symm.noForwardOverlap]
      refine readMessage_frame fun a ha => ?_
      rw [stampSource_kept (by rw [htask]; exact hsep a ha), hclear a (hsep a ha)]
    have hobs : receiveReceived s.k k' TASK_SYS sysMsg =
        [⟨f, TASK_SYS, readMessage s.k.mem (linear s.k.procTable f (s.buf f))⟩] := by
      have hdone : completed s.k.procTable k'.procTable = [f] := by
        refine Served.completed_client (k := k₁) hserved hserved' hf hq ?_ fun p hp => ?_
        · rw [Function.update_self]
          simp
        · exact Function.update_of_ne hp _ _
      rw [receiveReceived, hdone, h.linear_task, hmsg]
      rfl
    have ht : Touches sysMsg client f s (s.afterReceive sysMsg s.k k' .serve) := by
      refine hcont.touches hbusy hlin rfl fun a _ hsa => ?_
      rw [SysState.afterReceive, hmem, transfer_kept (by rw [htask]; exact hsa) hsa]
      exact hclear a hsa
    have hasked : s.asked f = true := (h.asked f).mpr (.inl hq)
    obtain ⟨hsrc, htype⟩ := hcont.request f hq
    have hstream := hcont.stream f
    rw [if_pos hq] at hstream
    refine ⟨_, .takes f rest hphase hqueue, Function.update client f (.due false), .ready, ?_, ?_⟩
    · refine h.advance hf (by decide) hipc hk (.takes f rest hphase hqueue) rfl hserved'
        (fun p _ => rfl) (h.buf f hbusy) (fun p _ => rfl) ?_ ⟨rfl, rfl⟩
      simp [SysState.afterReceive, hasked]
    · refine hcont.serves ht (by rw [hphase]; rfl) hsrc htype hmsg []
        (List.append_nil _).symm (by simp) (by rw [SysState.afterReceive, hobs]) rfl rfl ?_ rfl
        rfl rfl
      rw [SysState.afterReceive, hobs, between_append, between_self, hstream]
  · -- nobody is there
    have hobs : receiveReceived s.k k' TASK_SYS sysMsg = [] := by
      have hdone : completed s.k.procTable k'.procTable = [] :=
        Served.completed_none (k := k₁) hserved hserved' (fun _ hp => hp) (by simp)
      rw [receiveReceived, hdone]
      rfl
    refine ⟨_, .listens hphase hqueue, client, .listening sysMsg, ?_, ?_⟩
    · exact ⟨hipc, hk, h.addr, h.buf, h.inv.step (.listens hphase hqueue), hserved', h.clients,
        h.calm, h.task, h.asked, ⟨rfl, rfl⟩, h.someone⟩
    · refine hcont.task hlin rfl (fun a ha => ?_) rfl
        (by rw [SysState.afterReceive, hobs, List.append_nil]) rfl rfl rfl (by simp) (by simp)
        (fun _ => ?_) (by rw [hphase]; rfl) ?_ ?_
      · rw [SysState.afterReceive, hmem, stampSource_kept (by rw [htask]; exact ha)]
        exact hclear a ha
      · refine hcont.answers fun x hx => ?_
        rw [hphase] at hx
        cases hx
      · rw [hphase]
        exact List.forall_mem_nil _
      · rw [hphase]
        exact List.forall_mem_nil _

/-- The client whose request is in the message of `task_sys`. -/
theorem Contents.source_eq (hcont : Contents sysMsg s g client) {x : Pid}
    (hphase : g.phase = .serving x) :
    (readWord s.k.mem (sysMsg + offSource)).toInt = proc2pid x := by
  have hsrc : readWord s.k.mem sysMsg = BitVec.ofInt 32 (proc2pid x) := hcont.serving x hphase
  rw [show sysMsg + offSource = sysMsg from BitVec.add_zero _, hsrc, toInt_ofInt_proc2pid]

/-- A client in service is not a task, and is between its calls or parked. -/
theorem Control.inService (h : Control sysMsg s g client server) (hc : c ∈ g.phase.inService) :
    (client c).Busy ∧ (client c = .due false ∨ client c = .parked false) := by
  have hpast := (h.inv.past c).mpr hc
  refine ⟨?_, hpast.imp h.due h.parked⟩
  unfold Client.Busy
  rw [← h.clients]
  rcases hpast with hd | hp
  · rw [hd]
    decide
  · rw [hp]
    decide

/-- The reply to the request `m`. -/
def Message.answer (m : Message) (ticks : BitVec 32) : Message :=
  { m with source := BitVec.ofInt 32 (proc2pid TASK_SYS), m3i1 := ticks }

/-- The reply that `task_sys` puts together. -/
theorem reply_message (k : Machine) (sysMsg : Addr)
    (hlin : linear k.procTable TASK_SYS sysMsg = sysMsg) :
    readMessage (stampSource { k with mem := writeWord k.mem (sysMsg + offM3i1) k.ticks } TASK_SYS
      sysMsg).mem sysMsg = (readMessage k.mem sysMsg).answer k.ticks := by
  have hstamp := stampSource_message
    { k with mem := writeWord k.mem (sysMsg + offM3i1) k.ticks } TASK_SYS sysMsg
  dsimp only at hstamp
  rw [hlin, readMessage_writeRetval] at hstamp
  exact hstamp

theorem writeRetval_kept {mem : Mem} {la a : Addr} {v : BitVec 32} (h : ¬ InMessage la a) :
    writeWord mem (la + offM3i1) v a = mem a := by
  apply writeWord_out
  unfold InMessage InBlock sizeofMessage offM3i1 at *
  bv_omega

/-- `task_sys` replies. -/
theorem Follows.serve {pc' : SysPc} (h : Control sysMsg s g client server)
    (hcont : Contents sysMsg s g client) (hpc : s.pc = .serve)
    (hready : (s.k.procTable TASK_SYS).pFlags = 0)
    (hsrc : (readWord s.k.mem (sysMsg + offSource)).toInt = proc2pid c)
    (hcall : taskSysStep sysMsg s.k .serve = .ok (k', pc')) :
    ∃ g', Step g g' ∧ Follows sysMsg (s.afterServe s.k k' pc' c) g' := by
  obtain ⟨rfl, _, hcall⟩ := taskSysStep_serve hcall
  rw [hsrc] at hcall
  set k₁ : Machine := { s.k with mem := writeWord s.k.mem (sysMsg + offM3i1) s.k.ticks } with hk₁
  have hwrite : ∀ a, ¬ InMessage sysMsg a → k₁.mem a = s.k.mem a := fun a ha => writeRetval_kept ha
  have hserver : server = .ready := Server.ready_of_flags (h.served.server.1.symm.trans hready)
  obtain ⟨x, hphase⟩ := AtPhase.serve (hpc ▸ h.phase) hserver
  obtain rfl : x = c := proc2pid_inj.mp ((hcont.source_eq hphase).symm.trans hsrc)
  have hserv : g.phase.inService = [x] := by rw [hphase]; rfl
  have hin : x ∈ g.phase.inService := by rw [hserv]; exact List.mem_singleton_self x
  obtain ⟨hbusy, hpos⟩ := h.inService hin
  have hne := h.not_task hbusy
  have hsep := hcont.apartTask x hbusy
  have hnq : client x ≠ .queued := by
    rcases hpos with hpos | hpos
    · rw [hpos]
      nofun
    · rw [hpos]
      nofun
  have heff : SendEffect k₁ TASK_SYS x sysMsg k' := sysSendrec_send hcall
  have hlin : ∀ p va, linear k'.procTable p va = linear s.k.procTable p va := heff.linear_eq
  obtain ⟨hipc, hk⟩ : IpcInv k'.procTable ∧ k'.kReenter = 0 := by
    have hstep : SysStep k₁ k' := .call TASK_SYS SEND (proc2pid x) sysMsg hready
      (.inl ⟨rfl, x, hne, rfl⟩) h.addr hcall
    exact ⟨IpcInv.sysStep (k := k₁) h.ipc hstep, hstep.kReenter.trans h.kReenter⟩
  have hserved : Served TASK_SYS k₁.procTable s.buf client .ready g.queue := hserver ▸ h.served
  have htask : ∀ va, linear k₁.procTable TASK_SYS va = va := h.linear_task
  have hreply := reply_message s.k sysMsg (h.linear_task sysMsg)
  rw [← hk₁] at hreply
  have hanswers : s.answers = s.replied.map fun e => e.msg.retval := by
    refine hcont.answers fun y hy => ?_
    rw [hphase] at hy
    cases hy
  rcases hserved.server_send hne heff with ⟨hparked, hmem, hserved'⟩ | ⟨hnp, hmem, hserved'⟩
  · -- the client was waiting for its reply
    have hgp : g.client x = .parked := by rw [h.clients, hparked]; rfl
    rw [htask] at hmem
    have hmsg : readMessage k'.mem (linear s.k.procTable x (s.buf x)) =
        (readMessage s.k.mem sysMsg).answer s.k.ticks := by
      rw [hmem, ← hreply]
      exact readMessage_copy hsep.noForwardOverlap
    have hobs : sendReceived s.k k' TASK_SYS x =
        [⟨TASK_SYS, x, (readMessage s.k.mem sysMsg).answer s.k.ticks⟩] := by
      rw [h.served.sendReceived_client hserved' hne hparked (Function.update_self ..), hmsg]
    have ht : Touches sysMsg client x s (s.afterServe s.k k' .receive x) := by
      refine hcont.touches hbusy hlin rfl fun a ha hsa => ?_
      rw [SysState.afterServe, hmem, transfer_kept (by rw [htask]; exact hsa) ha]
      exact hwrite a hsa
    refine ⟨_, .replyMeets x hphase hgp, Function.update client x .out, .ready, ?_, ?_⟩
    · refine h.advance hne (by decide) hipc hk (.replyMeets x hphase hgp) rfl hserved'
        (fun p _ => rfl) (h.buf x hbusy) (fun p _ => rfl) ?_ ⟨rfl, rfl⟩
      have hasked : ¬ s.asked x = true := by
        rw [h.asked, hparked]
        nofun
      simp [SysState.afterServe, hasked]
    · refine hcont.replies (R := (readMessage s.k.mem sysMsg).answer s.k.ticks) ht hserv rfl rfl rfl
        rfl (by rw [SysState.afterServe, hobs]) ?_ hnq rfl rfl rfl
      rw [SysState.afterServe, hanswers]
      rfl
  · -- the client has not come to its receive yet
    have hdue : client x = .due false := hpos.resolve_right (hnp false)
    have hgd : g.client x = .due := by rw [h.clients, hdue]; rfl
    have hobs : sendReceived s.k k' TASK_SYS x = [] := h.served.sendReceived_due hne hnp TASK_SYS
    have hmsg : readMessage k'.mem sysMsg = (readMessage s.k.mem sysMsg).answer s.k.ticks := by
      rw [hmem]
      exact hreply
    refine ⟨_, .replyWaits x hphase hgd, client, .sending x sysMsg, ?_, ?_⟩
    · exact ⟨hipc, hk, h.addr, h.buf, h.inv.step (.replyWaits x hphase hgd), hserved', h.clients,
        h.calm, h.task, h.asked, ⟨rfl, rfl⟩, h.someone⟩
    · refine hcont.task hlin rfl (fun a ha => ?_) rfl rfl
        (by rw [SysState.afterServe, hobs, List.append_nil]) rfl rfl nofun (fun y _ => ?_)
        (fun hy => absurd rfl (hy x)) (by rw [hserv]; rfl) (fun y _ => ?_) fun y _ => ?_
      · rw [SysState.afterServe, hmem, stampSource_kept (by rw [htask]; exact ha)]
        exact hwrite a ha
      · rw [SysState.afterServe, hmsg, hanswers]
        exact ⟨rfl, rfl⟩
      · rw [SysState.afterServe, hmsg]
        exact hcont.type x hin
      · rw [SysState.afterServe, hmsg]
        rfl

end Calls

/-- Every call is a step of the protocol. -/
theorem Follows.step {sysMsg : Addr} {s s' : SysState} {g : State Pid} (h : Follows sysMsg s g)
    (hs : SysCall sysMsg s s') : ∃ g', Step g g' ∧ Follows sysMsg s' g' := by
  obtain ⟨client, server, hctl, hcont⟩ := h
  cases hs with
  | @ask k k' c m hel hc hcall =>
    have hown : Composed sysMsg { s with k := k } k c m := by
      refine ⟨hc.client, hc.ready, hc.out, hc.addr, hc.type, fun a ha hin => hc.own a ha ?_⟩
      rw [SysState.InUse] at hin ⊢
      simpa only [SysState.InCall, hel.table] using hin
    obtain ⟨g', hg', hf⟩ := Follows.ask (hctl.elapsed hel) (hcont.elapsed hctl hel) hown hcall
    exact ⟨g', hg', hf⟩
  | @await k k' c hel hc hready hasked hcall =>
    obtain ⟨g', hg', hf⟩ :=
      Follows.await (hctl.elapsed hel) (hcont.elapsed hctl hel) hc hready hasked hcall
    exact ⟨g', hg', hf⟩
  | @receive k k' pc' hel hpc hready hcall =>
    obtain ⟨g', hg', hf⟩ :=
      Follows.receive (hctl.elapsed hel) (hcont.elapsed hctl hel) hpc hready hcall
    exact ⟨g', hg', hf⟩
  | @serve k k' pc' c hel hpc hready hsrc hcall =>
    obtain ⟨g', hg', hf⟩ :=
      Follows.serve (hctl.elapsed hel) (hcont.elapsed hctl hel) hpc hready hsrc hcall
    exact ⟨g', hg', hf⟩

/-! ## The beginning -/

theorem SysStart.follows {sysMsg : Addr} {s : SysState} (h : SysStart sysMsg s) :
    Follows sysMsg s ⟨fun _ => .out, [], .receive, [], []⟩ := by
  have hpos : ∀ p, (Client.initial (s.k.procTable p)).position = .out := by
    intro p
    unfold Client.initial
    split_ifs <;> rfl
  have hidle : ∀ p, ¬ (Client.initial (s.k.procTable p)).Busy := fun p hb => hb (hpos p)
  have hnq : ∀ p, Client.initial (s.k.procTable p) ≠ .queued := by
    intro p hq
    exact hidle p (Client.busy_queued hq)
  refine ⟨fun p => Client.initial (s.k.procTable p), .ready, ?_, ?_⟩
  · refine ⟨h.quiescent.ipcInv, h.kReenter, h.sysMsg, fun p hb => absurd hb (hidle p), ?_,
      h.quiescent.served h.task s.buf, fun p => (hpos p).symm, fun p => ?_, ?_, fun p => ?_,
      ⟨h.pc, rfl⟩, ?_⟩
    · refine ⟨List.nodup_nil, fun p => ?_, fun p => ?_, by simp, by simp, rfl⟩
      · simp
      · simp [Phase.inService]
    · unfold Client.initial
      split_ifs <;> decide
    · simp [Client.initial, h.task]
    · rw [h.asked]
      unfold Client.initial
      split_ifs <;> simp
    · obtain ⟨c, hc, hready⟩ := h.someone
      refine ⟨c, hc, ?_⟩
      simp [Client.initial, hready]
  · refine ⟨fun c _ _ hc => absurd hc (hidle c), fun c hc => absurd hc (hidle c),
      fun c hc => absurd hc (hnq c), by simp, by simp, fun _ => ?_, List.forall_mem_nil _, ?_, ?_,
      fun e he => ?_, fun c => ?_, fun c => ?_⟩
    · rw [h.answers, h.replied]
      rfl
    · rw [h.taken]
      rfl
    · rw [h.replied]
      rfl
    · rw [h.replied] at he
      exact absurd he List.not_mem_nil
    · rw [h.requests, h.taken, if_neg (hnq c)]
      rfl
    · rw [h.taken, h.replied]
      simp [Phase.inService, between_nil]

/-! ## No call fails -/

/-- The next call of every ready party returns. -/
structure NoFault (sysMsg : Addr) (s : SysState) : Prop where
  ask : ∀ k c m, Elapsed sysMsg s k → Composed sysMsg s k c m → ∃ k', askSys k c m = .ok k'
  await : ∀ k c, Elapsed sysMsg s k → c ≠ TASK_SYS → (k.procTable c).pFlags = 0 →
    s.asked c = true → ∃ k', awaitSys k c (s.buf c) = .ok k'
  task : ∀ k, Elapsed sysMsg s k → (k.procTable TASK_SYS).pFlags = 0 →
    ∃ r, taskSysStep sysMsg k s.pc = .ok r

section Faults

variable {sysMsg : Addr} {s : SysState} {g : State Pid} {client : Pid → Client} {server : Server}
  {c : Pid}

/-- Sends lead to a client only from `task_sys`, and only while it replies. -/
theorem Control.transGen_client (h : Control sysMsg s g client server) (hc : c ≠ TASK_SYS) {x : Pid}
    (hx : Relation.TransGen (SendsTo s.k.procTable) x c) : client c = .due false := by
  have hlast : ∃ y, SendsTo s.k.procTable y c := by
    cases hx with
    | single hy => exact ⟨_, hy⟩
    | tail _ hy => exact ⟨_, hy⟩
  obtain ⟨y, hy⟩ := hlast
  by_cases hys : y = TASK_SYS
  · subst hys
    obtain ⟨b, hb⟩ := h.served.server_sendsTo.mp hy
    exact h.due (h.inv.replying c (h.phase.sending hb).1)
  · exact absurd ((h.served.sendsTo_client hys).mp hy).2 hc

/-- A client between its two calls is ready. -/
theorem Control.due_ready (h : Control sysMsg s g client server) (hc : c ≠ TASK_SYS)
    (hd : client c = .due false) : (s.k.procTable c).pFlags = 0 := by
  rw [(h.served.clients c hc).1, hd]
  rfl

theorem Control.ask_ok (h : Control sysMsg s g client server) {m : Addr} (hc : c ≠ TASK_SYS)
    (hready : (s.k.procTable c).pFlags = 0) (hasked : s.asked c = false) (hm : m ≠ 0) :
    ∃ k', askSys s.k c m = .ok k' := by
  have hout := h.out hc hready hasked
  rcases sysSendrec_send_spec h.ipc h.kReenter hready hc hm with hok | ⟨_, hcycle⟩ | ⟨_, hacc, hno⟩
  · exact hok
  · have hd := h.transGen_client hc hcycle
    rw [hout] at hd
    cases hd
  · -- if `task_sys` is blocked in a reply, the client it replies to is ready
    exfalso
    cases hserver : server with
    | ready =>
      have hf := h.served.server.1
      rw [hserver] at hf
      exact hno TASK_SYS hc.symm hf
    | listening b => exact hacc (h.served.server_accepts.mpr ⟨b, hserver⟩)
    | sending x b =>
      have hd := h.due (h.inv.replying x (h.phase.sending hserver).1)
      have hx : x ≠ TASK_SYS := by
        intro hx
        rw [hx, h.task] at hd
        cases hd
      have hxc : x ≠ c := by
        intro hx
        rw [hx, hout] at hd
        cases hd
      exact hno x hxc (h.due_ready hx hd)

theorem Control.await_ok (h : Control sysMsg s g client server) (hc : c ≠ TASK_SYS)
    (hready : (s.k.procTable c).pFlags = 0) (hasked : s.asked c = true) :
    ∃ k', awaitSys s.k c (s.buf c) = .ok k' := by
  have hdue := h.between_calls hc hready hasked
  have hbuf : s.buf c ≠ 0 := by
    apply h.buf
    rw [hdue]
    exact (by decide : CState.due ≠ CState.out)
  rcases sysSendrec_receive_spec h.ipc h.kReenter hready (.inr ⟨TASK_SYS, hc.symm, rfl⟩) hbuf with
    hok | ⟨_, hnone, hno⟩
  · exact hok
  · -- `task_sys` serves this client, and is ready unless it is sending to it
    exfalso
    have hserv : c ∈ g.phase.inService := by
      rw [← h.inv.past, h.clients, hdue]
      exact .inl rfl
    have hphase := h.phase
    cases hph : g.phase with
    | receive => rw [hph] at hserv; exact absurd hserv List.not_mem_nil
    | listening => rw [hph] at hserv; exact absurd hserv List.not_mem_nil
    | serving x =>
      rw [hph] at hphase
      have hf := h.served.server.1
      rw [hphase.2] at hf
      exact hno TASK_SYS hc.symm hf
    | replying x =>
      rw [hph] at hserv hphase
      obtain rfl := List.mem_singleton.mp hserv
      have hsends := h.served.server_sendsTo.mpr ⟨sysMsg, hphase.2⟩
      rcases hnone with hnone | ⟨f, hf, hnone⟩
      · exact absurd hnone.1 (proc2pid_ne_any TASK_SYS)
      · obtain rfl := proc2pid_inj.mp hf
        exact hnone hsends

theorem Control.receive_ok (h : Control sysMsg s g client server) (hpc : s.pc = .receive)
    (hready : (s.k.procTable TASK_SYS).pFlags = 0) :
    ∃ r, taskSysStep sysMsg s.k .receive = .ok r := by
  set k₁ : Machine := { s.k with mem := pAsmMemset s.k.mem sysMsg 0 sizeofMessage } with hk₁
  rcases sysSendrec_receive_spec (k := k₁) h.ipc h.kReenter hready (.inl rfl) h.addr with
    ⟨k', hk'⟩ | ⟨_, hnone, hno⟩
  · exact ⟨(k', .serve), by rw [taskSysStep, ← hk₁, hk']; rfl⟩
  · -- with nobody in the queue or in service, every process is ready
    exfalso
    have hserver : server = .ready := Server.ready_of_flags (h.served.server.1.symm.trans hready)
    have hphase : g.phase = .receive := AtPhase.receive (hpc ▸ h.phase) hserver
    have hempty : g.queue = [] := by
      rcases hnone with hnone | ⟨f, hf, _⟩
      · exact h.served.queue.head_eq_none.mp hnone.2
      · exact absurd hf.symm (proc2pid_ne_any f)
    obtain ⟨x, hx, hlive⟩ := h.someone
    have hpos : g.client x = .out := by
      by_contra hne
      rcases h.inv.waiting hne with hq | hq
      · rw [hempty] at hq
        exact absurd hq List.not_mem_nil
      · rw [hphase] at hq
        exact absurd hq List.not_mem_nil
    have hout : client x = .out := by
      have := h.position_eq hpos
      cases hcl : client x with
      | out => rfl
      | free => exact absurd hcl hlive
      | _ => rw [hcl] at this; cases this
    refine hno x hx ?_
    have hf := (h.served.clients x hx).1
    rw [hout] at hf
    exact hf

theorem Control.serve_ok (h : Control sysMsg s g client server)
    (hcont : Contents sysMsg s g client) (hpc : s.pc = .serve)
    (hready : (s.k.procTable TASK_SYS).pFlags = 0) :
    ∃ r, taskSysStep sysMsg s.k .serve = .ok r := by
  set k₁ : Machine := { s.k with mem := writeWord s.k.mem (sysMsg + offM3i1) s.k.ticks } with hk₁
  have hserver : server = .ready := Server.ready_of_flags (h.served.server.1.symm.trans hready)
  obtain ⟨x, hphase⟩ := AtPhase.serve (hpc ▸ h.phase) hserver
  have hin : x ∈ g.phase.inService := by rw [hphase]; exact List.mem_singleton_self x
  obtain ⟨hbusy, hpos⟩ := h.inService hin
  have hx := h.not_task hbusy
  have htype : readWord s.k.mem (sysMsg + offType) = GET_TICKS := hcont.type x hin
  have hrun : ∀ r, sysSendrec k₁ SEND (proc2pid x) sysMsg TASK_SYS = .ok r →
      taskSysStep sysMsg s.k .serve = .ok (r, .receive) := by
    intro r hr
    simp only [taskSysStep]
    rw [if_pos htype, hcont.source_eq hphase, ← hk₁, hr]
    rfl
  rcases sysSendrec_send_spec (k := k₁) h.ipc h.kReenter hready hx.symm h.addr with
    ⟨k', hk'⟩ | ⟨_, hcycle⟩ | ⟨_, hacc, hno⟩
  · exact ⟨_, hrun k' hk'⟩
  · -- a client in service sends to nobody
    exfalso
    obtain ⟨y, hy, _⟩ := Relation.TransGen.head'_iff.mp hcycle
    have hq := ((h.served.sendsTo_client hx).mp hy).1
    rcases hpos with hpos | hpos
    · rw [hpos] at hq
      cases hq
    · rw [hpos] at hq
      cases hq
  · exfalso
    rcases hpos with hpos | hpos
    · exact hno x hx (h.due_ready hx hpos)
    · exact hacc ((h.served.client_accepts hx).mpr ⟨false, hpos⟩)

theorem Follows.noFault (h : Follows sysMsg s g) : NoFault sysMsg s := by
  obtain ⟨client, server, hctl, hcont⟩ := h
  refine ⟨fun k c m hel hc => ?_, fun k c hel hc hready hasked => ?_, fun k hel hready => ?_⟩
  · exact (hctl.elapsed hel).ask_ok hc.client hc.ready hc.out hc.addr
  · exact (hctl.elapsed hel).await_ok hc hready hasked
  · cases hpc : s.pc with
    | receive => exact (hctl.elapsed hel).receive_ok hpc hready
    | serve => exact (hctl.elapsed hel).serve_ok (hcont.elapsed hctl hel) hpc hready

end Faults

/-! ## Every run -/

/-- The requests and the replies agree. -/
structure ExactReplies (s : SysState) : Prop where
  /-- The requests taken are answered in order, and at most one of them has no
      reply yet. -/
  inFlight : ∃ l, l.length ≤ 1 ∧ s.taken.map Event.src = s.replied.map Event.dst ++ l
  /-- The replies to a client give back its own requests, one for one; the last
      is missing exactly while the client is inside `send_recv`. -/
  own : ∀ c, c ≠ TASK_SYS → ∃ l, l.length = (if s.InCall c then 1 else 0) ∧
    (between s.requests c TASK_SYS).map Message.body =
      (between s.replied TASK_SYS c).map Message.body ++ l
  /-- They come from `task_sys`. -/
  source : ∀ e ∈ s.replied, e.src = TASK_SYS ∧
    e.msg.source = BitVec.ofInt 32 (proc2pid TASK_SYS) ∧ e.msg.type = GET_TICKS
  /-- They carry the values of `ticks` that `task_sys` has read, in order. -/
  ticks : s.replied.map (fun e => e.msg.retval) <+: s.answers

theorem Follows.exactReplies {sysMsg : Addr} {s : SysState} {g : State Pid}
    (h : Follows sysMsg s g) : ExactReplies s := by
  obtain ⟨client, server, hctl, hcont⟩ := h
  refine ⟨⟨g.phase.inService, ?_, ?_⟩, fun c hc => ?_, hcont.source, ?_⟩
  · cases g.phase <;> simp [Phase.inService]
  · rw [← hcont.taken, ← hcont.replied]
    exact hctl.inv.taken_eq
  · have hbusy : (s.InCall c) ↔ client c = .queued ∨ c ∈ g.phase.inService := by
      rw [hctl.inCall hc, Client.Busy, ← hctl.clients, ← hctl.inv.past]
      constructor
      · intro hb
        cases hcl : g.client c with
        | out => exact absurd hcl hb
        | queued => exact .inl (hctl.queued hcl)
        | due => exact .inr (.inl rfl)
        | parked => exact .inr (.inr rfl)
      · intro hb
        rcases hb with hb | hb | hb
        · rw [hctl.clients, hb]
          decide
        · rw [hb]
          decide
        · rw [hb]
          decide
    have hxor : client c = .queued → c ∉ g.phase.inService := by
      intro hq hin
      have hpast := (hctl.inv.past c).mpr hin
      rw [hctl.clients, hq] at hpast
      simp [Client.position] at hpast
    have hstream := congrArg (List.map Message.body) (hcont.stream c)
    rw [List.map_append, hcont.own c, List.append_assoc] at hstream
    refine ⟨_, ?_, hstream⟩
    by_cases hq : client c = .queued
    · rw [if_pos hq, if_neg (hxor hq), if_pos (hbusy.mpr (.inl hq))]
      rfl
    · by_cases hin : c ∈ g.phase.inService
      · rw [if_neg hq, if_pos hin, if_pos (hbusy.mpr (.inr hin))]
        rfl
      · have hnot : ¬ s.InCall c := by
          rw [hbusy]
          exact fun hx => hx.elim hq hin
        rw [if_neg hq, if_neg hin, if_neg hnot]
        rfl
  · by_cases hrep : ∃ c, g.phase = .replying c
    · obtain ⟨c, hc⟩ := hrep
      rw [(hcont.replying c hc).2]
      exact List.prefix_append _ _
    · rw [hcont.answers fun c hc => hrep ⟨c, hc⟩]

theorem sysRun_follows {sysMsg : Addr} {s : SysState}
    (h : Reachable (SysStart sysMsg) (SysCall sysMsg) s) : ∃ g, Follows sysMsg s g :=
  h.invariant (I := fun s => ∃ g, Follows sysMsg s g) (fun _ h0 => ⟨_, h0.follows⟩)
    fun _ _ ⟨_, hg⟩ hs => (hg.step hs).imp fun _ hg' => hg'.2

/-- In every state that a run of any clients and `task_sys` reaches, no call can
    fail, and the replies are those to the requests, each client's its own. A
    client inside `send_recv` gets exactly one more reply, however the run goes
    on. -/
theorem sysRun_request_reply {sysMsg : Addr} {s : SysState}
    (h : Reachable (SysStart sysMsg) (SysCall sysMsg) s) :
    NoFault sysMsg s ∧ ExactReplies s ∧
    ∀ f : ℕ → SysState, f 0 = s → (∀ i, SysCall sysMsg (f i) (f (i + 1))) →
      ∀ c, c ≠ TASK_SYS → s.InCall c →
        ∃ i, ((f i).replied.map Event.dst).count c = (s.replied.map Event.dst).count c + 1 := by
  obtain ⟨g, hg⟩ := sysRun_follows h
  refine ⟨hg.noFault, hg.exactReplies, fun f h0 hrun c hc hcall => ?_⟩
  have hwait : g.client c ≠ .out := by
    obtain ⟨client, server, hctl, _⟩ := hg
    rw [hctl.clients]
    exact (hctl.inCall hc).mp hcall
  obtain ⟨i, g', hg', hcount⟩ := eventually_replied (R := Follows sysMsg)
    (fun _ _ hf => hf.elim fun _ hx => hx.elim fun _ hy => hy.1.inv)
    (fun _ _ _ hf hs => hf.step hs) (rank g c) g f le_rfl (h0 ▸ hg) hwait hrun
  obtain ⟨_, _, _, hcont⟩ := hg
  obtain ⟨_, _, _, hcont'⟩ := hg'
  refine ⟨i, ?_⟩
  rw [← hcont'.replied, ← hcont.replied]
  exact hcount

/-- The booted machine, before anybody has called anything. -/
def bootSys : SysState :=
  ⟨bootMachine sampleImage, .receive, fun _ => false, fun _ => 0, [], [], [], []⟩

theorem bootSys_start : SysStart 0x2000 bootSys :=
  ⟨initProc_quiescent sampleImage, rfl, by decide, rfl, ⟨3, by decide, rfl⟩, rfl, rfl, rfl, rfl,
    rfl, rfl⟩

/-- The machine after a call. -/
def returned (k : Machine) (r : Except Fault Machine) : Machine :=
  match r with
  | .ok k' => k'
  | .error _ => k

/-- `task_sys` listens, and INIT composes a message with `get_ticks`. -/
def listeningSys : SysState :=
  bootSys.afterReceive 0x2000 bootSys.k (returned bootSys.k
    ((taskSysStep 0x2000 bootSys.k .receive).map Prod.fst)) .serve

def composedSys : Machine :=
  { listeningSys.k with
    mem := getTicksMsg listeningSys.k.mem (linear listeningSys.k.procTable 3 0x1000) }

/-- INIT's request is taken at once. -/
theorem sysRun_request_reply_get_ticks :
    ∃ k, askSys composedSys 3 0x1000 = .ok k ∧
      (listeningSys.afterAsk composedSys k 3 0x1000).taken.map Event.src = [3] ∧
      NoFault 0x2000 (listeningSys.afterAsk composedSys k 3 0x1000) ∧
      ExactReplies (listeningSys.afterAsk composedSys k 3 0x1000) := by
  have hidle : ∀ c ≠ TASK_SYS, ¬ listeningSys.InCall c := by decide
  have hlin : linear listeningSys.k.procTable 3 0x1000 = 0x1000 := by decide
  have hown : ∀ a, InMessage (linear listeningSys.k.procTable 3 0x1000) a →
      ¬ listeningSys.InUse 0x2000 a := by
    intro a ha hin
    rw [hlin] at ha
    rcases hin with hin | ⟨c, hc, hcall, _⟩
    · exact Apart.not_inBlock (by decide) ha hin
    · exact hidle c hc hcall
  have hrun : Reachable (SysStart 0x2000) (SysCall 0x2000) listeningSys :=
    .step (.init bootSys_start) (.receive ⟨rfl, rfl, fun _ _ => rfl⟩ rfl rfl rfl)
  refine ⟨_, rfl, ?_, ?_⟩
  · rfl
  · have hstep : SysCall 0x2000 listeningSys _ := .ask 3 0x1000 (getTicksMsg_elapsed hown)
      (getTicksMsg_composed (by decide) rfl rfl (by decide) hown) rfl
    obtain ⟨hfault, hexact, _⟩ := sysRun_request_reply (.step hrun hstep)
    exact ⟨hfault, hexact⟩

end SimpleOs
