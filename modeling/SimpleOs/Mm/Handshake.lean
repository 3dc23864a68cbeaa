import SimpleOs.Mm.Clients

/-!
# The handshake of `task_mm` and its clients

The invariant of the runs in which `do_execl` meets only callers that are blocked
in their receive (`Handshake`), and what the calls of the clients do to it.

Nothing is asked of the other requests. They can damage the queue of `task_mm`,
but not those of the clients: only `task_mm` sends to a client (`SoleSender`).
-/

namespace SimpleOs

open ByteMem Transition

/-! ## Nobody else sends to a client -/

/-- All messages to clients come from `task_mm`, all others go to it. -/
structure SoleSender (t : ProcTable) : Prop where
  sends : ∀ x, x ≠ TASK_MM → Sending (t x) → (t x).pSendto = proc2pid TASK_MM
  heads : ∀ p, p ≠ TASK_MM → (t p).qSending = none ∨
    ((t p).qSending = some TASK_MM ∧ SendsTo t TASK_MM p)
  link : (t TASK_MM).nextSending = none
  noLink : ∀ x, (t x).nextSending ≠ some TASK_MM
  noHead : (t TASK_MM).qSending ≠ some TASK_MM
  noInt : ∀ p, (t p).hasIntMsg = 0
  flat : ldtSegLinear (t TASK_MM).ldtData = 0

section Sole

variable {t t' : ProcTable}

theorem SoleSender.linear_task (h : SoleSender t) (va : Addr) : linear t TASK_MM va = va := by
  rw [linear, h.flat]
  exact BitVec.zero_add va

/-- While `task_mm` is not sending, nobody is on the queue of a client. -/
theorem SoleSender.idle (h : SoleSender t) (hmm : ¬ Sending (t TASK_MM)) {p : Pid}
    (hp : p ≠ TASK_MM) : (t p).qSending = none := by
  rcases h.heads p hp with hn | hs
  · exact hn
  · exact absurd hs.2.1 hmm

theorem SoleSender.congr (h : SoleSender t) (hsame : SameQueues t t')
    (hint : ∀ p, (t' p).hasIntMsg = (t p).hasIntMsg)
    (hldt : (t' TASK_MM).ldtData = (t TASK_MM).ldtData) : SoleSender t' := by
  refine ⟨fun x hx hs => ?_, fun p hp => ?_, ?_, fun x => ?_, ?_, fun p => ?_, ?_⟩
  · have hs' := (hsame.sending x).mp hs
    rw [hsame.sendto x hs']
    exact h.sends x hx hs'
  · rw [hsame.head, hsame.sendsTo]
    exact h.heads p hp
  · rw [hsame.next]
    exact h.link
  · rw [hsame.next]
    exact h.noLink x
  · rw [hsame.head]
    exact h.noHead
  · rw [hint]
    exact h.noInt p
  · rw [hldt]
    exact h.flat

/-- The walk along the links does not come to `task_mm`. -/
theorem SoleSender.lastSending_ne (h : SoleSender t) : ∀ (fuel : ℕ) (p q : Pid), p ≠ TASK_MM →
    lastSending t fuel p = .ok q → q ≠ TASK_MM := by
  intro fuel
  induction fuel with
  | zero =>
    intro p q _ hq
    cases hq
  | succ fuel ih =>
    intro p q hp hq
    rw [lastSending] at hq
    cases hnext : (t p).nextSending with
    | none =>
      rw [hnext] at hq
      cases hq
      exact hp
    | some r =>
      rw [hnext] at hq
      refine ih r q ?_ hq
      intro hr
      rw [hr] at hnext
      exact h.noLink p hnext

theorem SoleSender.tail_ne (h : SoleSender t) {tail : Option Pid}
    (htail : FindsTail t TASK_MM tail) : tail ≠ some TASK_MM := by
  unfold FindsTail at htail
  cases hq : (t TASK_MM).qSending with
  | none =>
    rw [hq] at htail
    rw [htail]
    nofun
  | some p =>
    rw [hq] at htail
    obtain ⟨q, hlast, rfl⟩ := htail
    have hp : p ≠ TASK_MM := by
      intro hp
      rw [hp] at hq
      exact h.noHead hq
    intro hc
    exact h.lastSending_ne 35 p q hp hlast (Option.some.inj hc)

end Sole

/-! ### The calls -/

section Calls

variable {k k' : Machine} {c d : Pid} {m : Addr}

/-- A client sends to `task_mm`. -/
theorem SoleSender.client_send (h : SoleSender k.procTable) (hc : c ≠ TASK_MM)
    (he : SendEffect k c TASK_MM m k') : SoleSender k'.procTable := by
  cases he with
  | delivered hacc hflags htable hmem =>
    rw [htable]
    exact h.congr (sameQueues_deliver _ TASK_MM) (fun _ => rfl) rfl
  | queued hacc tail htail htable hmem =>
    have hne := h.tail_ne htail
    rw [htable]
    refine ⟨fun x hx hs => ?_, fun p hp => ?_, ?_, fun x => ?_, ?_, h.noInt, h.flat⟩
    · by_cases hxc : x = c
      · simp [enqueue, hxc]
      · have hs' : Sending (k.procTable x) := by simpa [Sending, enqueue, hxc] using hs
        simpa [enqueue, hxc] using h.sends x hx hs'
    · have hhead : (enqueue k.procTable c TASK_MM m tail p).qSending =
          (k.procTable p).qSending := by simp [enqueue, hp]
      rw [hhead, sendsTo_enqueue]
      rcases h.heads p hp with hn | hs
      · exact .inl hn
      · exact .inr ⟨hs.1, .inr ⟨hc.symm, hs.2⟩⟩
    · simp [enqueue, hc.symm, hne, h.link]
    · by_cases hxc : x = c
      · simp [enqueue, hxc]
      · by_cases hxt : tail = some x
        · simp [enqueue, hxc, hxt, hc]
        · simpa [enqueue, hxc, hxt] using h.noLink x
    · by_cases htn : tail = none
      · simp [enqueue, htn, hc]
      · simpa [enqueue, htn] using h.noHead

/-- A client receives from `task_mm`. -/
theorem SoleSender.client_receive (h : SoleSender k.procTable) (hc : c ≠ TASK_MM)
    (he : ReceiveEffect k c (proc2pid TASK_MM) m k') : SoleSender k'.procTable := by
  cases he.from_proc with
  | taken prev hfound hprev htable hmem =>
    have hhead : (k.procTable c).qSending = some TASK_MM :=
      ((h.heads c hc).resolve_left hfound.queue).1
    have hnone : prev = none := by
      rcases hprev with hp | hp
      · exact hp.1
      · exact absurd hhead hp.2.1
    subst hnone
    rw [htable]
    refine ⟨fun x hx hs => ?_, fun p hp => ?_, ?_, fun x => ?_, ?_, h.noInt, h.flat⟩
    · have hs' : Sending (k.procTable x) := by simpa [Sending, dequeue, hx] using hs
      simpa [dequeue, hx] using h.sends x hx hs'
    · left
      by_cases hpc : p = c
      · simp [dequeue, hpc, h.link]
      · have hq : (k.procTable p).qSending = none := by
          rcases h.heads p hp with hn | hs
          · exact hn
          · exact absurd (hs.2.unique hfound.sendsTo) hpc
        simp [dequeue, hpc, hq]
    · simp [dequeue]
    · by_cases hx : x = TASK_MM
      · simp [dequeue, hx]
      · simpa [dequeue, hx] using h.noLink x
    · simpa [dequeue, hc.symm] using h.noHead
  | parked _ htable hmem =>
    rw [htable]
    exact h.congr (sameQueues_park _ c _ _) (fun _ => rfl) rfl

/-- `task_mm` receives from anybody. -/
theorem SoleSender.task_receive (h : SoleSender k.procTable)
    (hmm : ¬ Sending (k.procTable TASK_MM)) (he : ReceiveEffect k TASK_MM ANY m k') :
    SoleSender k'.procTable := by
  cases he with
  | taken f prev hsrc hfound hprev htable hmem =>
    have hhead : (k.procTable TASK_MM).qSending = some f := by
      rcases hsrc with hsrc | hsrc
      · exact hsrc.2
      · exact absurd hsrc.symm (proc2pid_ne_any f)
    have hnone : prev = none := by
      rcases hprev with hp | hp
      · exact hp.1
      · exact absurd hhead hp.2.1
    subst hnone
    have hf : f ≠ TASK_MM := by
      intro hf
      rw [hf] at hhead
      exact h.noHead hhead
    rw [htable]
    refine ⟨fun x hx hs => ?_, fun p hp => ?_, ?_, fun x => ?_, ?_, h.noInt, h.flat⟩
    · by_cases hxf : x = f
      · rw [sending_iff] at hs
        simp [dequeue, hxf] at hs
      · have hs' : Sending (k.procTable x) := by simpa [Sending, dequeue, hxf] using hs
        simpa [dequeue, hxf] using h.sends x hx hs'
    · left
      simpa [dequeue, hp] using h.idle hmm hp
    · simpa [dequeue, hf.symm] using h.link
    · by_cases hxf : x = f
      · simp [dequeue, hxf]
      · simpa [dequeue, hxf] using h.noLink x
    · simpa [dequeue] using h.noLink f
  | parked hsrc htable hmem =>
    rw [htable]
    exact h.congr (sameQueues_park _ TASK_MM _ _) (fun _ => rfl) rfl

/-- `task_mm` sends to a client. -/
theorem SoleSender.task_send (h : SoleSender k.procTable)
    (hmm : ¬ Sending (k.procTable TASK_MM)) (hd : d ≠ TASK_MM)
    (he : SendEffect k TASK_MM d m k') : SoleSender k'.procTable := by
  cases he with
  | delivered hacc hflags htable hmem =>
    rw [htable]
    exact h.congr (sameQueues_deliver _ d) (fun _ => rfl) rfl
  | queued hacc tail htail htable hmem =>
    have hnone : tail = none := by
      unfold FindsTail at htail
      rw [h.idle hmm hd] at htail
      exact htail
    subst hnone
    rw [htable]
    refine ⟨fun x hx hs => ?_, fun p hp => ?_, ?_, fun x => ?_, ?_, h.noInt, h.flat⟩
    · have hs' : Sending (k.procTable x) := by simpa [Sending, enqueue, hx] using hs
      simpa [enqueue, hx] using h.sends x hx hs'
    · by_cases hpd : p = d
      · subst hpd
        exact .inr ⟨by simp [enqueue], sendsTo_enqueue.mpr (.inl ⟨rfl, rfl⟩)⟩
      · left
        simpa [enqueue, hpd] using h.idle hmm hp
    · simp [enqueue]
    · by_cases hx : x = TASK_MM
      · simp [enqueue, hx]
      · simpa [enqueue, hx] using h.noLink x
    · simpa [enqueue, hd.symm] using h.noHead

end Calls

/-! ### The bookkeeping of `task_mm` -/

section Tables

variable {t : ProcTable} {pid child : Pid}

theorem SoleSender.fork (h : SoleSender t) (hmm : ¬ Sending (t TASK_MM)) (hpid : pid ≠ TASK_MM)
    (hchild : child ≠ TASK_MM) : SoleSender (forkTable t pid child) := by
  have hself : forkTable t pid child TASK_MM = t TASK_MM :=
    Function.update_of_ne hchild.symm _ _
  refine ⟨fun x hx hs => ?_, fun p hp => .inl ?_, ?_, fun x => ?_, ?_, fun p => ?_, ?_⟩
  · by_cases hxc : x = child
    · subst hxc
      rw [forkTable, Function.update_self] at hs ⊢
      exact h.sends pid hpid hs
    · rw [forkTable, Function.update_of_ne hxc] at hs ⊢
      exact h.sends x hx hs
  · by_cases hpc : p = child
    · subst hpc
      rw [forkTable, Function.update_self]
      exact h.idle hmm hpid
    · rw [forkTable, Function.update_of_ne hpc]
      exact h.idle hmm hp
  · rw [hself]
    exact h.link
  · by_cases hxc : x = child
    · subst hxc
      rw [forkTable, Function.update_self]
      exact h.noLink pid
    · rw [forkTable, Function.update_of_ne hxc]
      exact h.noLink x
  · rw [hself]
    exact h.noHead
  · by_cases hpc : p = child
    · subst hpc
      rw [forkTable, Function.update_self]
      exact h.noInt pid
    · rw [forkTable, Function.update_of_ne hpc]
      exact h.noInt p
  · rw [hself]
    exact h.flat

theorem SoleSender.free (h : SoleSender t) (hmm : ¬ Sending (t TASK_MM)) (proc : Pid) :
    SoleSender (freeSlot t proc) := by
  refine ⟨fun x hx hs => ?_, fun p hp => .inl (h.idle hmm hp), h.link, h.noLink, h.noHead, h.noInt,
    h.flat⟩
  by_cases hxp : x = proc
  · rw [sending_iff] at hs
    simp [freeSlot, hxp] at hs
  · have hs' : Sending (t x) := by simpa [Sending, freeSlot, hxp] using hs
    exact h.sends x hx hs'

end Tables

/-! ## The invariant -/

/-- The process with the number `i` is not at its entry point. -/
def Position.Clear (pos : Pid → Position) (i : ℤ) : Prop := ∀ q, i = proc2pid q → pos q ≠ .entry

/-- The process that the loop of `do_exit` goes on with. -/
def Resume.Clear (pos : Pid → Position) : Resume → Prop
  | .exit pid => Position.Clear pos pid
  | .scan pid _ => Position.Clear pos pid
  | .wait => True

/-- The message in `mm_msg` comes from `c`, which is inside its `send_recv`. -/
structure InHand (img : MmImage) (s : MmWorld) (c : Pid) : Prop where
  ne : c ≠ TASK_MM
  source : mmSource img s.k = proc2pid c
  inCall : s.InCall c
  pos : s.pos c ≠ .entry
  sending : ¬ Sending (s.k.procTable c)
  waiting : (s.k.procTable c).pFlags &&& WAITING = 0

/-- The processes that `task_mm` is going to send to are not at their entry
    points, but for the caller of EXEC, which is blocked in its receive. -/
def AtPc (img : MmImage) (s : MmWorld) : Prop :=
  match s.pc with
  | .receive => True
  | .dispatch => (s.k.procTable TASK_MM).pFlags &&& RECEIVING = 0 → ∃ c, InHand img s c
  | .forkSend src child => s.pos child ≠ .entry ∧ Position.Clear s.pos src
  | .cleanupSend proc ret => Position.Clear s.pos (s.k.procTable proc).pParent ∧ ret.Clear s.pos
  | .cleanupFree _ ret => ret.Clear s.pos
  | .exitScan pid _ => Position.Clear s.pos pid
  | .waitNone pid => Position.Clear s.pos pid
  | .reply src _ => ∀ q, src = proc2pid q → s.pos q ≠ .entry ∨ Accepts s.k.procTable q TASK_MM

/-- The caller of EXEC to whom `task_mm` is about to reply. -/
def MmWorld.pendingExec (s : MmWorld) : List Pid :=
  match s.pc with
  | .reply src _ => (List.finRange 35).filter fun q => src = proc2pid q ∧ s.pos q = .entry
  | _ => []

structure Handshake (img : MmImage) (s : MmWorld) : Prop where
  sole : SoleSender s.k.procTable
  task : s.pos TASK_MM ≠ .entry
  /-- A process in a send is between its calls, and its message names it. -/
  asking : ∀ x, x ≠ TASK_MM → Sending (s.k.procTable x) → s.pos x = .awaiting ∧
    (s.k.procTable x).msg = s.buf x ∧
    (readMessage s.k.mem (linear s.k.procTable x (s.buf x))).source = BitVec.ofInt 32 (proc2pid x)
  listening : (s.k.procTable TASK_MM).pFlags &&& RECEIVING ≠ 0 →
    s.pc = .dispatch ∧ (s.k.procTable TASK_MM).msg = img.mmMsg
  waiting : ∀ q, (s.k.procTable q).pFlags &&& WAITING ≠ 0 → s.pos q ≠ .entry
  apart : ∀ p, s.pos p = .entry → ¬ SendsTo s.k.procTable TASK_MM p
  idle : s.pc = .dispatch → ¬ Sending (s.k.procTable TASK_MM)
  atPc : AtPc img s
  execs : s.execs = s.consumed ++ s.pendingExec

/-- At its entry point, a process has had its reply, and nobody sends to it. -/
def EntrySafe (s : MmWorld) : Prop :=
  ∀ p, s.pos p = .entry → (s.k.procTable p).pFlags = 0 →
    (s.k.procTable p).qSending = none ∧ ¬ SendsTo s.k.procTable TASK_MM p ∧
      s.consumed.count p = s.execs.count p

theorem not_accepts_of_ready {t : ProcTable} {p q : Pid} (h : (t p).pFlags = 0) :
    ¬ Accepts t p q := by
  intro hc
  rw [Accepts, h] at hc
  exact hc.1 (by decide)

theorem Handshake.entrySafe {img : MmImage} {s : MmWorld} (h : Handshake img s) : EntrySafe s := by
  intro p hp hready
  have hne : p ≠ TASK_MM := by
    intro hx
    rw [hx] at hp
    exact h.task hp
  refine ⟨?_, h.apart p hp, ?_⟩
  · rcases h.sole.heads p hne with hn | hs
    · exact hn
    · exact absurd hs.2 (h.apart p hp)
  · have hnone : p ∉ s.pendingExec := by
      intro hmem
      have hat := h.atPc
      unfold MmWorld.pendingExec at hmem
      unfold AtPc at hat
      cases hpc : s.pc with
      | reply src r =>
        rw [hpc] at hmem hat
        simp only [List.mem_filter, decide_eq_true_eq] at hmem
        rcases hat p hmem.2.1 with hx | hx
        · exact hx hp
        · exact not_accepts_of_ready hready hx
      | _ =>
        rw [hpc] at hmem
        exact absurd hmem List.not_mem_nil
    rw [h.execs, List.count_append, List.count_eq_zero_of_not_mem hnone, Nat.add_zero]

/-! ## Between the calls -/

/-- What `AtPc` needs when `task_mm` stays where it is. -/
theorem AtPc.mono {img : MmImage} {s s' : MmWorld} (h : AtPc img s) (hpc : s'.pc = s.pc)
    (hpos : ∀ q, s.pos q ≠ .entry → s'.pos q ≠ .entry)
    (hparent : ∀ p, (s'.k.procTable p).pParent = (s.k.procTable p).pParent)
    (hhand : s.pc = .dispatch → (s'.k.procTable TASK_MM).pFlags &&& RECEIVING = 0 →
      ∃ c, InHand img s' c)
    (hacc : ∀ q, s.pos q = .entry → Accepts s.k.procTable q TASK_MM →
      Accepts s'.k.procTable q TASK_MM) : AtPc img s' := by
  have hclear : ∀ i, Position.Clear s.pos i → Position.Clear s'.pos i :=
    fun i hi q hq => hpos q (hi q hq)
  have hret : ∀ r : Resume, r.Clear s.pos → r.Clear s'.pos := by
    intro r hr
    cases r with
    | exit pid => exact hclear _ hr
    | scan pid i => exact hclear _ hr
    | wait => trivial
  unfold AtPc at h ⊢
  rw [hpc]
  cases hcase : s.pc with
  | receive => trivial
  | dispatch => exact hhand hcase
  | forkSend src child =>
    rw [hcase] at h
    exact ⟨hpos child h.1, hclear src h.2⟩
  | cleanupSend proc ret =>
    rw [hcase] at h
    dsimp only
    rw [hparent]
    exact ⟨hclear _ h.1, hret ret h.2⟩
  | cleanupFree proc ret =>
    rw [hcase] at h
    exact hret ret h
  | exitScan pid i =>
    rw [hcase] at h
    exact hclear pid h
  | waitNone pid =>
    rw [hcase] at h
    exact hclear pid h
  | reply src r =>
    rw [hcase] at h
    intro q hq
    by_cases hx : s.pos q = .entry
    · exact .inr (hacc q hx ((h q hq).resolve_left fun hn => hn hx))
    · exact .inl (hpos q hx)

theorem mmSource_of_message {img : MmImage} {k : Machine} {c : Pid}
    (h : (readMessage k.mem img.mmMsg).source = BitVec.ofInt 32 (proc2pid c)) :
    mmSource img k = proc2pid c := by
  have hsrc : readWord k.mem img.mmMsg = BitVec.ofInt 32 (proc2pid c) := h
  rw [mmSource, show img.mmMsg + offSource = img.mmMsg from BitVec.add_zero _, hsrc,
    toInt_ofInt_proc2pid]

/-- The source of the message in `mm_msg` depends on that message only. -/
theorem mmSource_frame {img : MmImage} {k k' : Machine}
    (h : ∀ a, InTask img a → k'.mem a = k.mem a) : mmSource img k' = mmSource img k := by
  have hmsg : readMessage k'.mem img.mmMsg = readMessage k.mem img.mmMsg :=
    readMessage_frame fun a ha => h a (.inl ha)
  have hsrc : readWord k'.mem img.mmMsg = readWord k.mem img.mmMsg :=
    congrArg Message.source hmsg
  rw [mmSource, mmSource, show img.mmMsg + offSource = img.mmMsg from BitVec.add_zero _, hsrc]

theorem Handshake.quiet {img : MmImage} {s : MmWorld} {k : Machine} (h : Handshake img s)
    (hq : Quiet img s k) : Handshake img { s with k := k } := by
  have ht := hq.table
  refine ⟨?_, h.task, fun x hx hs => ?_, ?_, ?_, ?_, ?_, ?_, h.execs⟩
  · dsimp only
    rw [ht]
    exact h.sole
  · dsimp only at hs ⊢
    rw [ht] at hs ⊢
    obtain ⟨hpos, hmsg, hsrc⟩ := h.asking x hx hs
    refine ⟨hpos, hmsg, ?_⟩
    rw [← hsrc]
    refine congrArg Message.source (readMessage_frame fun a ha => hq.mem a (.inr ⟨x, hs, ?_⟩))
    rw [hmsg]
    exact ha
  · dsimp only
    rw [ht]
    exact h.listening
  · dsimp only
    rw [ht]
    exact h.waiting
  · dsimp only
    rw [ht]
    exact h.apart
  · dsimp only
    rw [ht]
    exact h.idle
  · refine h.atPc.mono rfl (fun _ hp => hp) (fun p => ?_) (fun hpc hrecv => ?_) fun q _ hacc => ?_
    · dsimp only
      rw [ht]
    · have hat := h.atPc
      unfold AtPc at hat
      rw [hpc] at hat
      dsimp only at hrecv
      rw [ht] at hrecv
      obtain ⟨c, hc⟩ := hat hrecv
      have hsrc : mmSource img k = mmSource img s.k :=
        mmSource_frame fun a ha => hq.mem a (.inl ha)
      refine ⟨c, hc.ne, hsrc.trans hc.source, ?_, hc.pos, ?_, ?_⟩
      · rw [MmWorld.InCall]
        dsimp only
        rw [ht]
        exact hc.inCall
      · dsimp only
        rw [ht]
        exact hc.sending
      · dsimp only
        rw [ht]
        exact hc.waiting
    · dsimp only
      rw [ht]
      exact hacc

/-! ## The clients -/

section Clients

variable {img : MmImage} {s : MmWorld} {k' : Machine} {c : Pid} {m : Addr}

/-- A client's call changes no position to the entry point. -/
theorem pos_update_ne {pos : Pid → Position} {v : Position} (hv : v ≠ .entry) (q : Pid)
    (hq : pos q ≠ .entry) : Function.update pos c v q ≠ .entry := by
  by_cases hqc : q = c
  · rw [hqc, Function.update_self]
    exact hv
  · rw [Function.update_of_ne hqc]
    exact hq

theorem pos_update_entry {pos : Pid → Position} {v : Position} (hv : v ≠ .entry) {q : Pid}
    (hq : Function.update pos c v q = .entry) : q ≠ c ∧ pos q = .entry := by
  by_cases hqc : q = c
  · rw [hqc, Function.update_self] at hq
    exact absurd hq hv
  · rw [Function.update_of_ne hqc] at hq
    exact ⟨hqc, hq⟩

/-- The caller that `task_mm` is about to reply to is not ready. -/
theorem Handshake.pendingExec_update (h : Handshake img s)
    (hready : (s.k.procTable c).pFlags = 0) {v : Position} (hv : v ≠ .entry) {s' : MmWorld}
    (hpc : s'.pc = s.pc) (hpos : s'.pos = Function.update s.pos c v) :
    s'.pendingExec = s.pendingExec := by
  have hat := h.atPc
  unfold AtPc at hat
  unfold MmWorld.pendingExec
  rw [hpc, hpos]
  cases hcase : s.pc with
  | reply src r =>
    rw [hcase] at hat
    apply List.filter_congr
    intro q _
    apply decide_eq_decide.mpr
    refine and_congr_right fun hq => ?_
    by_cases hqc : q = c
    · subst hqc
      rw [Function.update_self]
      refine ⟨fun hx => absurd hx hv, fun hx => ?_⟩
      rcases hat q hq with hn | hacc
      · exact absurd hx hn
      · exact absurd hacc (not_accepts_of_ready hready)
    · rw [Function.update_of_ne hqc]
  | _ => rfl

/-- What a call of the client `c` leaves alone. -/
structure ClientMoved (c : Pid) (t t' : ProcTable) : Prop where
  same : ∀ q, q ≠ c → q ≠ TASK_MM → (t' q).pFlags = (t q).pFlags ∧ (t' q).msg = (t q).msg ∧
    (t' q).pRecvfrom = (t q).pRecvfrom
  parent : ∀ p, (t' p).pParent = (t p).pParent
  linear_eq : ∀ p va, linear t' p va = linear t p va
  sends : ∀ p, SendsTo t' TASK_MM p → SendsTo t TASK_MM p
  sending : Sending (t' TASK_MM) → Sending (t TASK_MM)
  listens : (t' TASK_MM).pFlags &&& RECEIVING ≠ 0 →
    (t TASK_MM).pFlags &&& RECEIVING ≠ 0 ∧ (t' TASK_MM).msg = (t TASK_MM).msg

theorem SendEffect.clientMoved {k : Machine} (h : SendEffect k c TASK_MM m k')
    (hc : c ≠ TASK_MM) : ClientMoved c k.procTable k'.procTable := by
  have hlin := h.linear_eq
  cases h with
  | delivered _ _ htable _ =>
    rw [htable] at hlin ⊢
    have hsame := sameQueues_deliver k.procTable TASK_MM
    refine ⟨fun q _ hq => by simp [deliver, hq], fun _ => rfl, hlin, fun p => hsame.sendsTo.mp,
      (hsame.sending _).mp, fun hr => ?_⟩
    rw [receiving_iff] at hr
    simp [deliver] at hr
  | queued _ tail _ htable _ =>
    rw [htable] at hlin ⊢
    refine ⟨fun q hq _ => by simp [enqueue, hq], fun _ => rfl, hlin, fun p hp => ?_, fun hs => ?_,
      fun hr => ?_⟩
    · rcases sendsTo_enqueue.mp hp with hp | hp
      · exact absurd hp.1.symm hc
      · exact hp.2
    · simpa [Sending, enqueue, hc.symm] using hs
    · simpa [enqueue, hc.symm] using hr

theorem ReceiveEffect.clientMoved {k : Machine} (h : ReceiveEffect k c (proc2pid TASK_MM) m k')
    (hc : c ≠ TASK_MM) : ClientMoved c k.procTable k'.procTable := by
  have hlin := h.linear_eq
  cases h.from_proc with
  | taken prev hfound _ htable _ =>
    rw [htable] at hlin ⊢
    refine ⟨fun q _ hq => by simp [dequeue, hq], fun _ => rfl, hlin, fun p hp => ?_,
      fun _ => hfound.sendsTo.1, fun hr => ?_⟩
    · exact (sendsTo_dequeue.mp hp).2
    · rw [receiving_iff] at hr
      simp [dequeue, hfound.fromFlags] at hr
  | parked _ htable _ =>
    rw [htable] at hlin ⊢
    have hsame := sameQueues_park k.procTable c (proc2pid TASK_MM) m
    refine ⟨fun q hq _ => by simp [park, hq], fun _ => rfl, hlin, fun p => hsame.sendsTo.mp,
      (hsame.sending _).mp, fun hr => ?_⟩
    simpa [park, hc.symm] using hr

/-- A request in hand stays there while another process makes a call. -/
theorem InHand.clientMoved {s' : MmWorld} {x : Pid} (h : InHand img s x)
    (hmoved : ClientMoved c s.k.procTable s'.k.procTable) (hxc : x ≠ c)
    (hsrc : mmSource img s'.k = mmSource img s.k) (hpos : s'.pos x = s.pos x) :
    InHand img s' x := by
  obtain ⟨hf, _, _⟩ := hmoved.same x hxc h.ne
  refine ⟨h.ne, hsrc.trans h.source, ?_, ?_, ?_, ?_⟩
  · rw [MmWorld.InCall, hpos, hf]
    exact h.inCall
  · rw [hpos]
    exact h.pos
  · rw [Sending, hf]
    exact h.sending
  · rw [hf]
    exact h.waiting

/-- The invariant after a call of the client `c`; what remains is its own message
    and the message in `mm_msg`. -/
theorem Handshake.clientMoved (h : Handshake img s) (hready : (s.k.procTable c).pFlags = 0)
    {s' : MmWorld} {v : Position} (hv : v ≠ .entry)
    (hmoved : ClientMoved c s.k.procTable s'.k.procTable) (hsole : SoleSender s'.k.procTable)
    (hpc : s'.pc = s.pc) (hpos : s'.pos = Function.update s.pos c v)
    (hbuf : ∀ x, x ≠ c → s'.buf x = s.buf x)
    (hexecs : s'.execs = s.execs ∧ s'.consumed = s.consumed)
    (hkept : ∀ a, InBlockedBuffer s.k.procTable a → s'.k.mem a = s.k.mem a)
    (hself : Sending (s'.k.procTable c) → v = .awaiting ∧
      (s'.k.procTable c).msg = s'.buf c ∧
      (readMessage s'.k.mem (linear s'.k.procTable c (s'.buf c))).source =
        BitVec.ofInt 32 (proc2pid c))
    (hhand : s.pc = .dispatch → (s'.k.procTable TASK_MM).pFlags &&& RECEIVING = 0 →
      ∃ x, InHand img s' x) : Handshake img s' := by
  have hpending := h.pendingExec_update hready hv hpc hpos
  refine ⟨hsole, ?_, fun x hx hs => ?_, fun hr => ?_, fun q hq => ?_, fun p hp => ?_,
    fun hd hs => ?_, ?_, ?_⟩
  · rw [hpos]
    exact pos_update_ne hv _ h.task
  · by_cases hxc : x = c
    · subst hxc
      obtain ⟨h1, h2, h3⟩ := hself hs
      exact ⟨by rw [hpos, Function.update_self, h1], h2, h3⟩
    · obtain ⟨hf, hm, _⟩ := hmoved.same x hxc hx
      have hs' : Sending (s.k.procTable x) := by
        rw [Sending, ← hf]
        exact hs
      obtain ⟨hp, hmsg, hsrc⟩ := h.asking x hx hs'
      rw [hpos, Function.update_of_ne hxc, hbuf x hxc, hm, hmoved.linear_eq]
      refine ⟨hp, hmsg, ?_⟩
      rw [← hsrc]
      refine congrArg Message.source (readMessage_frame fun a ha => hkept a ⟨x, hs', ?_⟩)
      rw [hmsg]
      exact ha
  · obtain ⟨hr', hmsg⟩ := hmoved.listens hr
    obtain ⟨hd, hm⟩ := h.listening hr'
    exact ⟨hpc.trans hd, hmsg.trans hm⟩
  · rw [hpos]
    by_cases hqc : q = c
    · rw [hqc, Function.update_self]
      exact hv
    · rw [Function.update_of_ne hqc]
      by_cases hqm : q = TASK_MM
      · rw [hqm]
        exact h.task
      · rw [(hmoved.same q hqc hqm).1] at hq
        exact h.waiting q hq
  · rw [hpos] at hp
    exact fun hs => h.apart p (pos_update_entry hv hp).2 (hmoved.sends p hs)
  · exact h.idle (hpc.symm.trans hd) (hmoved.sending hs)
  · refine h.atPc.mono hpc (fun q hq => ?_) hmoved.parent hhand fun q hq hacc => ?_
    · rw [hpos]
      exact pos_update_ne hv q hq
    · have hqc : q ≠ c := by
        intro hqc
        rw [hqc] at hacc
        exact not_accepts_of_ready hready hacc
      have hqm : q ≠ TASK_MM := by
        intro hqm
        rw [hqm] at hq
        exact h.task hq
      obtain ⟨hf, _, hr⟩ := hmoved.same q hqc hqm
      unfold Accepts at hacc ⊢
      rw [hf, hr]
      exact hacc
  · rw [hexecs.1, hexecs.2, hpending]
    exact h.execs

/-- A client sends a request. -/
theorem Handshake.ask (h : Handshake img s) (hc : c ≠ TASK_MM)
    (hready : (s.k.procTable c).pFlags = 0) (hpos : s.pos c ≠ .awaiting)
    (hown : ∀ a, InMessage (linear s.k.procTable c m) a → ¬ InTask img a)
    (hkept : ∀ a, InBlockedBuffer s.k.procTable a → k'.mem a = s.k.mem a)
    (hcall : sysSendrec s.k SEND (proc2pid TASK_MM) m c = .ok k') :
    Handshake img (s.afterAsk s.k k' c m) := by
  have heff : SendEffect s.k c TASK_MM m k' := sysSendrec_send hcall
  have hmoved := heff.clientMoved hc
  have hns : ¬ Sending (s.k.procTable c) := not_sending_of_flags_zero hready
  have hstamp : readMessage (stampSource s.k c m).mem (linear s.k.procTable c m) = passed s.k c m :=
    stampSource_message s.k c m
  have hbuf : Function.update s.buf c m c = m := Function.update_self ..
  refine h.clientMoved hready (v := .awaiting) (by decide) hmoved (h.sole.client_send hc heff) rfl
    rfl (fun x hx => Function.update_of_ne hx _ _) ⟨rfl, rfl⟩ hkept (fun hs => ?_)
    fun hpc hrecv => ?_
  · -- the client is blocked: its message has been stamped
    refine ⟨rfl, ?_⟩
    unfold MmWorld.afterAsk at hs ⊢
    dsimp only at hs ⊢
    rw [hbuf, heff.linear_eq]
    cases heff with
    | delivered _ _ htable _ =>
      rw [htable, (sameQueues_deliver _ TASK_MM).sending] at hs
      exact absurd hs hns
    | queued _ tail _ htable hmem =>
      rw [hmem, hstamp, htable]
      exact ⟨by simp [enqueue], rfl⟩
  · cases heff with
    | delivered hacc _ htable hmem =>
      -- `task_mm` has the message now
      obtain ⟨_, hmsg⟩ := h.listening hacc.1
      rw [hmsg, h.sole.linear_task] at hmem
      have hover : NoForwardOverlap sizeofMessage img.mmMsg (linear s.k.procTable c m) :=
        noForwardOverlap_of_disjoint fun a ha hca => hown a hca (.inl ha)
      have hread : readMessage k'.mem img.mmMsg = passed s.k c m := by
        rw [hmem, readMessage_copy hover, hstamp]
      have hflags : (k'.procTable c).pFlags = 0 := by
        rw [htable]
        simpa [deliver, hc] using hready
      refine ⟨c, hc, ?_, .inl (Function.update_self ..), ?_, not_sending_of_flags_zero hflags, ?_⟩
      · exact mmSource_of_message (by rw [MmWorld.afterAsk, hread]; rfl)
      · unfold MmWorld.afterAsk
        dsimp only
        rw [Function.update_self]
        decide
      · rw [MmWorld.afterAsk, hflags]
        decide
    | queued hacc tail htail htable hmem =>
      have hat := h.atPc
      unfold AtPc at hat
      rw [hpc] at hat
      have hrecv' : (s.k.procTable TASK_MM).pFlags &&& RECEIVING = 0 := by
        rw [MmWorld.afterAsk, htable] at hrecv
        simpa [enqueue, hc.symm] using hrecv
      obtain ⟨x, hx⟩ := hat hrecv'
      have hxc : x ≠ c := by
        intro hxc
        rcases hx.inCall with hi | hi
        · rw [hxc] at hi
          exact hpos hi
        · rw [hxc, hready] at hi
          exact hi (by decide)
      refine ⟨x, hx.clientMoved hmoved hxc ?_ (Function.update_of_ne hxc _ _)⟩
      refine mmSource_frame fun a ha => ?_
      rw [MmWorld.afterAsk, hmem]
      refine stampSource_out fun hca => hown a ?_ ha
      unfold InMessage InBlock sizeofMessage at *
      omega

/-- A client calls its receive. -/
theorem Handshake.await (h : Handshake img s) (hc : c ≠ TASK_MM)
    (hready : (s.k.procTable c).pFlags = 0)
    (hown : ∀ a, InMessage (linear s.k.procTable c (s.buf c)) a → ¬ InTask img a)
    (hkept : ∀ a, InBlockedBuffer s.k.procTable a → k'.mem a = s.k.mem a)
    (hcall : sysSendrec s.k RECEIVE (proc2pid TASK_MM) (s.buf c) c = .ok k') :
    Handshake img (s.afterAwait s.k k' c) := by
  have heff : ReceiveEffect s.k c (proc2pid TASK_MM) (s.buf c) k' :=
    sysSendrec_receive (h.sole.noInt c) hcall
  have hmoved := heff.clientMoved hc
  have hns : ¬ Sending (s.k.procTable c) := not_sending_of_flags_zero hready
  refine h.clientMoved hready (v := .running) (by decide) hmoved (h.sole.client_receive hc heff) rfl
    rfl (fun _ _ => rfl) ⟨rfl, rfl⟩ hkept (fun hs => ?_) fun hpc hrecv => ?_
  · -- a receive does not put the client into a send
    exfalso
    apply hns
    rw [MmWorld.afterAwait] at hs
    cases heff.from_proc with
    | taken prev _ _ htable _ =>
      rw [htable, sending_iff] at hs
      rw [sending_iff]
      simpa [dequeue, hc] using hs
    | parked _ htable _ =>
      rw [htable] at hs
      exact ((sameQueues_park _ c _ _).sending c).mp hs
  · cases heff.from_proc with
    | taken prev hfound _ htable _ =>
      -- `task_mm` is not sending at this point
      exact absurd hfound.sendsTo.1 (h.idle hpc)
    | parked _ htable hmem =>
      have hat := h.atPc
      unfold AtPc at hat
      rw [hpc] at hat
      have hrecv' : (s.k.procTable TASK_MM).pFlags &&& RECEIVING = 0 := by
        rw [MmWorld.afterAwait, htable] at hrecv
        simpa [park, hc.symm] using hrecv
      obtain ⟨x, hx⟩ := hat hrecv'
      have hsource : mmSource img k' = mmSource img s.k := by
        refine mmSource_frame fun a ha => ?_
        rw [hmem]
        exact stampSource_kept fun hca => hown a hca ha
      by_cases hxc : x = c
      · subst hxc
        have hflags : (k'.procTable x).pFlags = RECEIVING := by
          rw [htable]
          exact park_flags _ _ hready
        refine ⟨x, hc, hsource.trans hx.source, .inr ?_, ?_, ?_, ?_⟩
        · rw [MmWorld.afterAwait, hflags]
          decide
        · unfold MmWorld.afterAwait
          dsimp only
          rw [Function.update_self]
          decide
        · rw [MmWorld.afterAwait, Sending, hflags]
          decide
        · rw [MmWorld.afterAwait, hflags]
          decide
      · exact ⟨x, hx.clientMoved hmoved hxc hsource (Function.update_of_ne hxc _ _)⟩

end Clients

end SimpleOs
