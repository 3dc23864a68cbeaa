import SimpleOs.Kernel.Progress

/-!
# A rendezvous, seen from its two parties

The calls between two processes of which nothing is known about the rest of the
table: neither the other queues nor the wait-for graph need to be in order. A
send to a process that waits for it, a send to a process that is ready and whose
chain has an end, a receive from a sender on that chain, and a receive that finds
the sender not sending all return.
-/

namespace SimpleOs

open ByteMem Intrusive

variable {k : Machine} {s d w f : Pid} {m : Addr}

/-- The search for a cycle ends at a process that is not in a send. -/
theorem deadlock_of_not_sending {t : ProcTable} (h : ¬ Sending (t d)) :
    deadlock t (proc2pid s) (proc2pid d) = .ok false := by
  simp only [deadlock, slot_proc2pid, bind, Except.bind]
  rw [deadlockLoop, if_neg (by exact h)]

theorem Process.Ready.not_sending {p : Process} (h : p.Ready) : ¬ Sending p :=
  not_sending_of_flags_zero h.flags

theorem Process.InReceive.not_sending {p : Process} (h : p.InReceive) : ¬ Sending p := by
  rw [Sending, h.flags]
  decide

/-- A send to a process that does not send itself. -/
theorem sysSendrec_send_eq (hk : k.kReenter = 0) (hflat : NativeFlat k.procTable)
    (hd : ¬ Sending (k.procTable d)) (hsd : s ≠ d) : sysSendrec k SEND (proc2pid d) m s =
      if Accepts k.procTable d s then msgSendDeliver (stampSource k s m) s d m
      else msgSendBlock (stampSource k s m) s d (proc2pid d) m := by
  have hne : proc2pid s ≠ proc2pid d := fun hc => hsd (proc2pid_inj.mp hc)
  have hdead : deadlock (stampSource k s m).procTable (proc2pid s) (proc2pid d) = .ok false :=
    deadlock_of_not_sending hd
  rw [sysSendrec_eq hk hflat (.inl ⟨rfl, d, hsd.symm, rfl⟩), if_pos rfl, msgSend, assert_bind hne,
    hdead]
  simp only [slot_proc2pid, bind, Except.bind, Bool.false_eq_true, if_false]
  rfl

/-- The receiver waits for the sender. -/
theorem sysSendrec_send_meets (hk : k.kReenter = 0) (hflat : NativeFlat k.procTable)
    (hs : (k.procTable s).Ready) (hd : (k.procTable d).InReceive)
    (hacc : Accepts k.procTable d s) (hsd : s ≠ d) (hm : m ≠ 0) :
    ∃ k', sysSendrec k SEND (proc2pid d) m s = .ok k' := by
  rw [sysSendrec_send_eq hk hflat hd.not_sending hsd, if_pos hacc]
  exact msgSendDeliver_ok (k := stampSource k s m) hflat hs hd hsd hm

/-- The receiver has yet to make its receive. -/
theorem sysSendrec_send_waits (hk : k.kReenter = 0) (hflat : NativeFlat k.procTable)
    (hs : (k.procTable s).Ready) (hd : (k.procTable d).Ready) {l : List Pid}
    (hq : Linked (links k.procTable) (k.procTable d).qSending l) (hlen : l.length ≤ 35)
    (hsd : s ≠ d) (hm : m ≠ 0) :
    ∃ k', sysSendrec k SEND (proc2pid d) m s = .ok k' := by
  have hacc : ¬ Accepts k.procTable d s := by
    intro hc
    rw [Accepts, hd.flags] at hc
    exact hc.1 (by decide)
  rw [sysSendrec_send_eq hk hflat hd.not_sending hsd, if_neg hacc]
  have htail : ∃ tail, FindsTail (stampSource k s m).procTable d tail :=
    ⟨_, (findsTail_iff_of_linked hq hlen).mpr rfl⟩
  rcases msgSendBlock_cases (k := stampSource k s m) hs htail hm with hok | ⟨_, hnobody⟩
  · exact hok
  · exact absurd hd.flags (hnobody d hsd.symm)

/-- A receive from one process, when no interrupt is pending. -/
theorem sysSendrec_receive_eq (hk : k.kReenter = 0) (hflat : NativeFlat k.procTable)
    (hint : (k.procTable w).hasIntMsg = 0) (hfw : f ≠ w) (sel : Selection) :
    msgReceiveSelect k.procTable w (proc2pid f) = .ok sel →
      sysSendrec k RECEIVE (proc2pid f) m w =
        match sel with
        | .take pFrom prev => msgReceiveTake (stampSource k w m) w pFrom prev m
        | .wait pRecvfrom => msgReceiveBlock (stampSource k w m) w pRecvfrom m := by
  intro hsel
  have hne : proc2pid w ≠ proc2pid f := fun hc => hfw (proc2pid_inj.mp hc).symm
  have hsel' : msgReceiveSelect (stampSource k w m).procTable w (proc2pid f) = .ok sel := hsel
  rw [sysSendrec_eq hk hflat (.inr ⟨rfl, .inr ⟨f, hfw, rfl⟩⟩), if_neg (by decide), msgReceive,
    assert_bind hne, if_neg fun hc => hc.1 hint, hsel']
  cases sel with
  | take => rfl
  | wait => rfl

/-- The sender is waiting on the chain, behind `prev`. -/
theorem sysSendrec_receive_meets (hk : k.kReenter = 0) (hflat : NativeFlat k.procTable)
    (hw : (k.procTable w).Ready) (hint : (k.procTable w).hasIntMsg = 0)
    (hf : (k.procTable f).InSend) (hto : (k.procTable f).pSendto = proc2pid w) {prev : Option Pid}
    (hprev : FindsPrev k.procTable w f prev) (hfw : f ≠ w) (hm : m ≠ 0) :
    ∃ k', sysSendrec k RECEIVE (proc2pid f) m w = .ok k' := by
  have hsending : Sending (k.procTable f) := by
    rw [Sending, hf.flags]
    decide
  have hsearch : searchSending k.procTable (proc2pid f) f 36 none (k.procTable w).qSending =
      .ok prev := by
    rcases hprev with ⟨rfl, hq⟩ | ⟨_, _, h⟩
    · rw [hq, searchSending, assert_bind (by exact hsending), if_pos rfl]
    · exact h
  have hhead : (k.procTable w).qSending ≠ none := by
    intro hc
    rcases hprev with ⟨_, hq⟩ | ⟨hne, _, h⟩
    · rw [hc] at hq
      cases hq
    · rw [hc, searchSending] at h
      exact hne (Except.ok.inj h).symm
  have hfound : Found k.procTable w f :=
    ⟨hw.flags, hw.msg, hw.recvfrom, hw.sendto, hhead, hf.flags, hf.msg, hf.recvfrom, hto⟩
  have hchecks : msgReceiveChecks k.procTable w f = .ok () := msgReceiveChecks_eq_ok.mpr hfound
  have hsel : msgReceiveSelect k.procTable w (proc2pid f) = .ok (.take f prev) := by
    rw [msgReceiveSelect, if_neg (proc2pid_ne_any f), slot_proc2pid]
    simp only [bind, Except.bind]
    rw [if_pos (by exact ⟨hsending, hto⟩)]
    simp only [assert, hhead, ne_eq, not_false_eq_true, if_true, hsearch, hchecks]
  rw [sysSendrec_receive_eq hk hflat hint hfw _ hsel]
  refine msgReceiveTake_ok (k := stampSource k w m) hflat hfound hm ?_
  rcases hprev with ⟨rfl, hq⟩ | ⟨hne, hq, _⟩
  · exact .inl ⟨rfl, hq⟩
  · obtain ⟨q, rfl⟩ := Option.ne_none_iff_exists'.mp hne
    exact .inr ⟨q, rfl, hq⟩

/-- The sender is not sending, and somebody else can run. -/
theorem sysSendrec_receive_waits (hk : k.kReenter = 0) (hflat : NativeFlat k.procTable)
    (hw : (k.procTable w).Ready) (hint : (k.procTable w).hasIntMsg = 0)
    (hf : ¬ SendsTo k.procTable f w) (hfw : f ≠ w) (hm : m ≠ 0)
    (helse : ∃ q, q ≠ w ∧ (k.procTable q).pFlags = 0) :
    ∃ k', sysSendrec k RECEIVE (proc2pid f) m w = .ok k' := by
  have hsel : msgReceiveSelect k.procTable w (proc2pid f) = .ok (.wait (proc2pid f)) := by
    rw [msgReceiveSelect, if_neg (proc2pid_ne_any f), slot_proc2pid]
    simp only [bind, Except.bind]
    rw [if_neg (by exact hf)]
  rw [sysSendrec_receive_eq hk hflat hint hfw _ hsel]
  obtain ⟨q, hqw, hq⟩ := helse
  rcases msgReceiveBlock_cases (k := stampSource k w m) hw hint hm (proc2pid_ne_noTask f) with
    hok | ⟨_, hnobody⟩
  · exact hok
  · exact absurd hq (hnobody q hqw)

end SimpleOs
