import SimpleOs.Mm.Ledger
import SimpleOs.Mm.Sound

/-!
# From the EXIT to the end of `wait`

A report that is owed to a parent is delivered, whatever the processes do in the
meantime.

* `Orderly.step`: the invariant of the runs in which every EXIT finds the parent
  waiting.
* `ExitTaken.inevitable`: from the EXIT on, every schedule leads to the state in
  which a call of `wait` has returned and the slot of the child is free.
-/

namespace SimpleOs

open ByteMem Transition

/-! ## Runs of the clients are runs of the system -/

section Runs

variable {img : MmImage} {C C' : MmWorld → Machine → Prop} {s s' : MmWorld}

/-- A step that could be made under another condition. -/
theorem WorldStep.mono (h : WorldStep img C s s') (hC : ∀ k, C s k → C' s k) :
    WorldStep img C' s s' := by
  cases h with
  | ask c m hq hc hready hpos hm hown hkept h =>
    exact .ask c m hq hc hready hpos hm hown hkept h
  | await c hq hc hready hpos hkept h => exact .await c hq hc hready hpos hkept h
  | @task k _ _ eax hq hs hready hkept h => exact .task eax hq (hC k hs) hready hkept h

theorem MmWorld.afterTask_sys (img : MmImage) (s : MmWorld) (k k' : Machine) (pc' : MmPc) :
    (s.afterTask img k k' pc').k = k' ∧ (s.afterTask img k k' pc').pc = pc' := by
  unfold MmWorld.afterTask
  cases s.pc with
  | dispatch =>
    dsimp only
    unfold MmWorld.afterDispatch
    dsimp only
    split
    · exact ⟨rfl, rfl⟩
    · split_ifs
      · split
        · exact ⟨rfl, rfl⟩
        · exact ⟨rfl, rfl⟩
      · exact ⟨rfl, rfl⟩
      · exact ⟨rfl, rfl⟩
      · exact ⟨rfl, rfl⟩
  | _ => exact ⟨rfl, rfl⟩

theorem Sound.quiet {k : Machine} (h : Sound ⟨s.k, s.pc⟩) (hq : Quiet img s k) :
    Sound ⟨k, s.pc⟩ := by
  have hother : MmSysStep img (fun _ => True) ⟨s.k, s.pc⟩ ⟨k, s.pc⟩ := .other hq.table hq.kReenter
  exact h.step hother

/-- A step of the clients is one of the system, after what happens in between. -/
theorem Sound.worldStep (h : Sound ⟨s.k, s.pc⟩) (hstep : WorldStep img C s s') :
    Sound ⟨s'.k, s'.pc⟩ := by
  cases hstep with
  | @ask k k' c m hq hc hready hpos hm hown hkept hcall =>
    have huser : MmSysStep img (fun _ => True) ⟨k, s.pc⟩ ⟨k', s.pc⟩ :=
      .user c SEND (proc2pid TASK_MM) m hc hready hcall
    exact (h.quiet hq).step huser
  | @await k k' c hq hc hready hpos hkept hcall =>
    have huser : MmSysStep img (fun _ => True) ⟨k, s.pc⟩ ⟨k', s.pc⟩ :=
      .user c RECEIVE (proc2pid TASK_MM) (s.buf c) hc hready hcall
    exact (h.quiet hq).step huser
  | @task k k' pc' eax hq hC hready hkept hcall =>
    have htask : MmSysStep img (fun _ => True) ⟨k, s.pc⟩ ⟨k', pc'⟩ :=
      .task eax trivial hready hcall
    obtain ⟨hk, hpc⟩ := MmWorld.afterTask_sys img s k k' pc'
    rw [hk, hpc]
    exact (h.quiet hq).step htask

/-- If `task_mm` is in a send, it is in nothing else, and at the head of a queue. -/
def TaskBlocked (t : ProcTable) : Prop :=
  Sending (t TASK_MM) → (t TASK_MM).pFlags = SENDING ∧ (t TASK_MM).pRecvfrom = NO_TASK ∧
    ∃ d, d ≠ TASK_MM ∧ (t TASK_MM).pSendto = proc2pid d ∧ (t d).qSending = some TASK_MM

theorem TaskBlocked.of_free {t : ProcTable} (h : ¬ Sending (t TASK_MM)) : TaskBlocked t :=
  fun hs => absurd hs h

theorem TaskBlocked.same {t t' : ProcTable} (h : TaskBlocked t)
    (hsame : SameIpc (t TASK_MM) (t' TASK_MM))
    (hqueue : ∀ d, d ≠ TASK_MM → (t' d).qSending = (t d).qSending) : TaskBlocked t' := by
  intro hs
  obtain ⟨hflags, hrecv, d, hd, hto, hhead⟩ := h (hsame.sending.mp hs)
  exact ⟨hsame.flags.trans hflags, hsame.recvfrom.trans hrecv, d, hd, hsame.sendto.trans hto,
    (hqueue d hd).trans hhead⟩

/-- The send of a ready `task_mm`. -/
theorem MmSent.taskBlocked {k k₁ k' : Machine} {d : Pid} {b : Addr} (h : MmSent k₁ d b k')
    (hk₁ : k₁.procTable = k.procTable) (hsole : SoleSender k.procTable)
    (hready : (k.procTable TASK_MM).Ready) : TaskBlocked k'.procTable := by
  have hnot : ¬ Sending (k.procTable TASK_MM) := not_sending_of_flags_zero hready.flags
  cases h.outcome.effect with
  | delivered _ _ htable _ =>
    rw [htable, hk₁]
    exact (TaskBlocked.of_free hnot).same (sameIpc_deliver _ h.ne) fun _ _ => rfl
  | queued _ tail htail htable _ =>
    have hidle : (k.procTable d).qSending = none := hsole.idle hnot h.ne.symm
    obtain rfl : tail = none := by
      unfold FindsTail at htail
      rw [hk₁, hidle] at htail
      exact htail
    rw [htable, hk₁]
    refine fun _ => ⟨enqueue_flags d _ _ hready.flags, ?_, d, h.ne.symm, ?_, ?_⟩
    · simp [enqueue, hready.recvfrom]
    · simp [enqueue]
    · simp [enqueue]

theorem MmOutcome.taskBlocked {k k' : Machine} {pc pc' : MmPc} (h : MmOutcome img k pc k' pc')
    (hsole : SoleSender k.procTable) (hready : (k.procTable TASK_MM).Ready) :
    TaskBlocked k'.procTable := by
  have hnot : ¬ Sending (k.procTable TASK_MM) := not_sending_of_flags_zero hready.flags
  have hqueues : ∀ t', SameQueues k.procTable t' → TaskBlocked t' :=
    fun t' hsame => .of_free fun hs => hnot ((hsame.sending _).mp hs)
  cases h with
  | receive hrecv =>
    cases hrecv.effect (hsole.noInt TASK_MM) with
    | taken f prev _ _ _ htable _ =>
      rw [htable]
      refine .of_free fun hs => hnot ?_
      by_cases hf : TASK_MM = f
      · rw [sending_iff] at hs
        simp [dequeue, hf] at hs
      · simpa [Sending, dequeue, hf, clearMmMsg] using hs
    | parked _ htable _ =>
      rw [htable]
      exact hqueues _ (sameQueues_park _ _ _ _)
  | forkNone => exact .of_free hnot
  | fork pid child used _ _ _ hchild =>
    have hne : TASK_MM ≠ child := by
      intro hne
      rw [← hne] at hchild
      exact absurd hchild (by decide)
    refine .of_free ?_
    dsimp only
    rw [forkTable, Function.update_of_ne hne]
    exact hnot
  | exitWaited pid parent => exact hqueues _ (sameQueues_exitWaited _ _ _ _)
  | exitHanging pid parent => exact hqueues _ (sameQueues_exitHanging _ _ _ _)
  | waitHanging => exact .of_free hnot
  | waitChildren pid => exact hqueues _ (sameQueues_setWaiting _ _)
  | waitChildless => exact .of_free hnot
  | exec pid mem used entry => exact hqueues _ (sameQueues_setEip _ _ _)
  | forkSend _ _ hsent => exact hsent.taskBlocked rfl hsole hready
  | cleanupSend _ _ _ _ hsent => exact hsent.taskBlocked rfl hsole hready
  | cleanupFree proc ret =>
    refine .of_free fun hs => hnot ?_
    by_cases hp : TASK_MM = proc
    · rw [sending_iff] at hs
      simp [freeSlot, hp] at hs
    · simpa [Sending, freeSlot, hp] using hs
  | scanFound => exact hqueues _ (sameQueues_clearWaiting _ _)
  | scanDone => exact .of_free hnot
  | waitNone _ hsent => exact hsent.taskBlocked rfl hsole hready
  | reply _ _ hsent => exact hsent.taskBlocked rfl hsole hready

theorem TaskBlocked.ask {k k' : Machine} {c : Pid} {m : Addr} (h : TaskBlocked k.procTable)
    (hc : c ≠ TASK_MM) (hcall : sysSendrec k SEND (proc2pid TASK_MM) m c = .ok k') :
    TaskBlocked k'.procTable := by
  cases (sysSendrec_send hcall : SendEffect k c TASK_MM m k') with
  | delivered _ hflags htable _ =>
    refine .of_free (not_sending_of_flags_zero ?_)
    rw [htable]
    exact deliver_flags hflags
  | queued _ tail _ htable _ =>
    rw [htable]
    exact h.same (sameIpc_enqueue _ m tail hc.symm) fun d hd => by simp [enqueue, hd]

theorem TaskBlocked.await {k k' : Machine} {c : Pid} {m : Addr} (h : TaskBlocked k.procTable)
    (hc : c ≠ TASK_MM) (hint : (k.procTable c).hasIntMsg = 0)
    (hcall : sysSendrec k RECEIVE (proc2pid TASK_MM) m c = .ok k') :
    TaskBlocked k'.procTable := by
  cases (sysSendrec_receive hint hcall).from_proc with
  | taken prev hfound _ htable _ =>
    refine .of_free (not_sending_of_flags_zero ?_)
    rw [htable]
    exact dequeue_flags _ prev hfound.fromFlags
  | parked _ htable _ =>
    rw [htable]
    exact h.same (sameIpc_park _ _ m hc.symm) fun _ _ => rfl

/-- What holds in every state of a run in which every EXIT finds the parent
    waiting. -/
structure Orderly (img : MmImage) (s : MmWorld) : Prop where
  sound : Sound ⟨s.k, s.pc⟩
  blocked : TaskBlocked s.k.procTable
  handshake : Handshake img s
  ledger : Ledger img s

theorem Orderly.quiet {k : Machine} (h : Orderly img s) (hq : Quiet img s k) :
    Orderly img { s with k := k } := by
  refine ⟨h.sound.quiet hq, ?_, h.handshake.quiet hq, h.ledger.quiet h.handshake hq⟩
  dsimp only
  rw [hq.table]
  exact h.blocked

theorem Orderly.ready {p : Pid} (h : Orderly img s) (hp : (s.k.procTable p).pFlags = 0) :
    (s.k.procTable p).Ready :=
  (h.sound.table.tidy p (occupied_of_ready hp)).ready hp

theorem Orderly.taskBlocked (h : Orderly img s) (hstep : WorldStep img C s s') :
    TaskBlocked s'.k.procTable := by
  cases hstep with
  | ask c m hq hc hready hpos hm hown hkept hcall => exact (h.quiet hq).blocked.ask hc hcall
  | await c hq hc hready hpos hkept hcall =>
    exact (h.quiet hq).blocked.await hc ((h.quiet hq).handshake.sole.noInt c) hcall
  | @task k k' pc' eax hq hC hready hkept hcall =>
    rw [(MmWorld.afterTask_sys img s k k' pc').1]
    exact (mmStep_outcome hcall).taskBlocked (h.quiet hq).handshake.sole
      ((h.quiet hq).ready hready)

theorem Orderly.step (h : Orderly img s) (hstep : WorldStep img (WaitFirst img) s s') :
    Orderly img s' :=
  ⟨h.sound.worldStep hstep, h.taskBlocked hstep, h.handshake.step (hstep.mono fun _ hk => hk.1),
    h.ledger.step h.handshake h.sound.table.flat hstep⟩

/-- The booted machine, with nothing done yet. -/
def WorldBooted (image : Image) (img : MmImage) (s : MmWorld) : Prop :=
  WorldStart img s ∧ Booted image s.k

theorem WorldBooted.orderly {image : Image} (h : WorldBooted image img s) : Orderly img s := by
  have hbooted : MmBooted image ⟨s.k, s.pc⟩ := ⟨h.2, h.1.pc⟩
  exact ⟨hbooted.sound, .of_free (h.1.quiescent.not_sending _), h.1.handshake, h.1.ledger⟩

end Runs

/-! ## A report is delivered

From the EXIT of a child whose parent is waiting to the end of `cleanup`, no
party waits for anything but the next call of a process that is ready: `task_mm`
itself, or the parent, if it is between the two calls of its `send_recv`. A
process that makes a request meanwhile is blocked until `task_mm` is back at its
receive, so the number of the ready processes and the phase go down. -/

/-- The messages of the processes inside `send_recv` are apart from those of
    `task_mm`, and from those of the processes blocked in a send. -/
structure Roomy (img : MmImage) (s : MmWorld) : Prop where
  task : ∀ p, p ≠ TASK_MM → s.InCall p →
    ∀ a, InMessage (linear s.k.procTable p (s.buf p)) a → ¬ InTask img a
  senders : ∀ p x, p ≠ TASK_MM → x ≠ TASK_MM → p ≠ x → s.InCall p → Sending (s.k.procTable x) →
    Separate (linear s.k.procTable p (s.buf p)) (linear s.k.procTable x (s.buf x))

/-- A step after which the messages are still apart. -/
def RoomyStep (img : MmImage) (s s' : MmWorld) : Prop :=
  WorldStep img (WaitFirst img) s s' ∧ Roomy img s'

/-- `task_mm` has the EXIT of `child`, and `parent` is waiting. -/
structure ExitTaken (img : MmImage) (s : MmWorld) (parent child : Pid) : Prop where
  pc : s.pc = .dispatch
  ready : (s.k.procTable TASK_MM).pFlags = 0
  type : mmType img s.k = EXIT
  source : mmSource img s.k = proc2pid child
  family : (s.k.procTable child).pParent = proc2pid parent
  waiting : (s.k.procTable parent).pFlags &&& WAITING ≠ 0

/-- A call of `wait` has returned for the EXIT `e`, and the slot of the child is
    free. -/
structure Reaped (s₀ : MmWorld) (e : ExitRecord) (s : MmWorld) : Prop where
  exits : s.exits = s₀.exits ++ [e]
  reported : s.reported = s₀.reported ++ [e.report]
  freed : s.freed = s₀.freed ++ [(e.child, FREE_SLOT)]
  slot : (s.k.procTable e.child).pFlags = FREE_SLOT

section Delivery

variable {img : MmImage} {s₀ s s' : MmWorld} {e : ExitRecord} {parent c : Pid} {m : Addr}
  {k' : Machine}

/-- How far `task_mm` has come with the EXIT `e`. -/
inductive Cleaning (img : MmImage) (s₀ : MmWorld) (parent : Pid) (e : ExitRecord) (s : MmWorld) :
    ℕ → Prop
  | taken (h : ExitTaken img s parent e.child) (hexits : s.exits = s₀.exits)
      (hstatus : mmStatus img s.k = e.status) (hparent : e.parent = proc2pid parent) :
      Cleaning img s₀ parent e s 3
  | sending (hpc : s.pc = .cleanupSend e.child (.exit (proc2pid e.child)))
      (hready : (s.k.procTable TASK_MM).pFlags = 0) (hexits : s.exits = s₀.exits ++ [e]) :
      Cleaning img s₀ parent e s 2
  | blocked (hpc : s.pc = .cleanupFree e.child (.exit (proc2pid e.child)))
      (hsend : Sending (s.k.procTable TASK_MM)) (hexits : s.exits = s₀.exits ++ [e]) :
      Cleaning img s₀ parent e s 1
  | freeing (hpc : s.pc = .cleanupFree e.child (.exit (proc2pid e.child)))
      (hready : (s.k.procTable TASK_MM).pFlags = 0) (hexits : s.exits = s₀.exits ++ [e]) :
      Cleaning img s₀ parent e s 0

/-- What a step of somebody else leaves as it is. -/
theorem Cleaning.mono {n : ℕ} (h : Cleaning img s₀ parent e s n) (hpc : s'.pc = s.pc)
    (hexits : s'.exits = s.exits)
    (htask : (s'.k.procTable TASK_MM).pFlags = (s.k.procTable TASK_MM).pFlags)
    (hfamily : ∀ p, (s'.k.procTable p).pParent = (s.k.procTable p).pParent)
    (hwaiting : (s.k.procTable parent).pFlags &&& WAITING ≠ 0 →
      (s'.k.procTable parent).pFlags = (s.k.procTable parent).pFlags)
    (hmsg : readMessage s'.k.mem img.mmMsg = readMessage s.k.mem img.mmMsg) :
    Cleaning img s₀ parent e s' n := by
  cases h with
  | taken h hexits' hstatus hparent =>
    obtain ⟨htype, hsource⟩ := request_congr hmsg
    have hsame : mmStatus img s'.k = mmStatus img s.k := congrArg Message.status hmsg
    refine .taken ⟨hpc.trans h.pc, htask.trans h.ready, htype.trans h.type, hsource.trans h.source,
      (hfamily _).trans h.family, ?_⟩ (hexits.trans hexits') (hsame.trans hstatus) hparent
    rw [hwaiting h.waiting]
    exact h.waiting
  | sending hpc' hready hexits' =>
    exact .sending (hpc.trans hpc') (htask.trans hready) (hexits.trans hexits')
  | blocked hpc' hsend hexits' =>
    refine .blocked (hpc.trans hpc') ?_ (hexits.trans hexits')
    rw [Sending, htask]
    exact hsend
  | freeing hpc' hready hexits' =>
    exact .freeing (hpc.trans hpc') (htask.trans hready) (hexits.trans hexits')

theorem Cleaning.quiet {n : ℕ} {k : Machine} (h : Cleaning img s₀ parent e s n)
    (hq : Quiet img s k) : Cleaning img s₀ parent e { s with k := k } n := by
  refine h.mono rfl rfl ?_ (fun p => ?_) (fun _ => ?_) ?_
  · rw [hq.table]
  · rw [hq.table]
  · rw [hq.table]
  · exact readMessage_frame fun a ha => hq.mem a (.inl (.inl ha))

/-- Until `cleanup` is done `task_mm` takes no request. -/
theorem Cleaning.not_listening {n : ℕ} (h : Cleaning img s₀ parent e s n) (ho : Orderly img s) :
    (s.k.procTable TASK_MM).pFlags &&& RECEIVING = 0 := by
  have hzero : (s.k.procTable TASK_MM).pFlags = 0 →
      (s.k.procTable TASK_MM).pFlags &&& RECEIVING = 0 := by
    intro hready
    rw [hready]
    decide
  cases h with
  | taken h _ _ _ => exact hzero h.ready
  | sending _ hready _ => exact hzero hready
  | blocked hpc _ _ =>
    by_contra hr
    have hdispatch := (ho.handshake.listening hr).1
    rw [hpc] at hdispatch
    cases hdispatch
  | freeing _ hready _ => exact hzero hready

/-- `task_mm` is sending to somebody only when the parent has yet to come to its
    receive. -/
theorem Cleaning.of_sending {n : ℕ} (h : Cleaning img s₀ parent e s n)
    (hsend : Sending (s.k.procTable TASK_MM)) :
    n = 1 ∧ s.pc = .cleanupFree e.child (.exit (proc2pid e.child)) ∧
      s.exits = s₀.exits ++ [e] := by
  cases h with
  | taken h _ _ _ => exact absurd hsend (not_sending_of_flags_zero h.ready)
  | sending _ hready _ => exact absurd hsend (not_sending_of_flags_zero hready)
  | blocked hpc _ hexits => exact ⟨rfl, hpc, hexits⟩
  | freeing _ hready _ => exact absurd hsend (not_sending_of_flags_zero hready)

/-- The ready processes other than `task_mm`. -/
def MmWorld.runnable (s : MmWorld) : Finset Pid :=
  Finset.univ.filter fun q => q ≠ TASK_MM ∧ (s.k.procTable q).pFlags = 0

theorem MmWorld.runnable_le (s : MmWorld) : s.runnable.card ≤ 35 :=
  Finset.card_le_univ s.runnable

theorem MmWorld.runnable_quiet {k : Machine} (s : MmWorld) (hq : Quiet img s k) :
    MmWorld.runnable { s with k := k } = s.runnable := by
  unfold MmWorld.runnable
  rw [hq.table]

/-- A client whose call blocks it. -/
theorem MmWorld.runnable_lt (hmoved : ClientMoved c s.k.procTable s'.k.procTable)
    (hc : c ≠ TASK_MM) (hready : (s.k.procTable c).pFlags = 0)
    (hblocked : (s'.k.procTable c).pFlags ≠ 0) : s'.runnable.card < s.runnable.card := by
  refine Finset.card_lt_card (Finset.ssubset_iff_subset_ne.mpr ⟨fun q hq => ?_, fun heq => ?_⟩)
  · simp only [MmWorld.runnable, Finset.mem_filter, Finset.mem_univ, true_and] at hq ⊢
    have hqc : q ≠ c := by
      intro hqc
      rw [hqc] at hq
      exact hblocked hq.2
    rw [← (hmoved.same q hqc hq.1).1]
    exact hq
  · have hmem : c ∈ s.runnable := by
      simp only [MmWorld.runnable, Finset.mem_filter, Finset.mem_univ, true_and]
      exact ⟨hc, hready⟩
    rw [← heq] at hmem
    simp only [MmWorld.runnable, Finset.mem_filter, Finset.mem_univ, true_and] at hmem
    exact hblocked hmem.2

/-! ### The clients -/

/-- A request made meanwhile blocks its sender. -/
theorem Cleaning.ask {n : ℕ} (h : Cleaning img s₀ parent e s n) (ho : Orderly img s)
    (hc : c ≠ TASK_MM) (hready : (s.k.procTable c).pFlags = 0)
    (hown : ∀ a, InMessage (linear s.k.procTable c m) a → ¬ InTask img a)
    (hcall : sysSendrec s.k SEND (proc2pid TASK_MM) m c = .ok k') :
    Cleaning img s₀ parent e (s.afterAsk s.k k' c m) n ∧
      (s.afterAsk s.k k' c m).runnable.card < s.runnable.card := by
  have heff : SendEffect s.k c TASK_MM m k' := sysSendrec_send hcall
  have hmoved := heff.clientMoved hc
  cases heff with
  | delivered hacc _ _ _ => exact absurd (h.not_listening ho) hacc.1
  | queued hacc tail htail htable hmem =>
    have hblocked : (k'.procTable c).pFlags ≠ 0 := by
      rw [htable, enqueue_flags _ m tail hready]
      decide
    have hmsg : readMessage k'.mem img.mmMsg = readMessage s.k.mem img.mmMsg := by
      rw [hmem]
      exact readMessage_frame fun a ha => stampSource_kept fun hca => hown a hca (.inl ha)
    have hsame : ∀ q, q ≠ c → (k'.procTable q).pFlags = (s.k.procTable q).pFlags := by
      intro q hq
      rw [htable]
      exact (sameIpc_enqueue _ m tail hq).flags
    refine ⟨h.mono rfl rfl (hsame _ hc.symm) hmoved.parent (fun hw => hsame _ fun hpc => ?_) hmsg,
      MmWorld.runnable_lt hmoved hc hready hblocked⟩
    rw [hpc, hready] at hw
    exact hw (by decide)

/-- A receive that finds `task_mm` not sending blocks its caller. -/
theorem Cleaning.awaitParks {n : ℕ} (h : Cleaning img s₀ parent e s n) (ho : Orderly img s)
    (hc : c ≠ TASK_MM) (hready : (s.k.procTable c).pFlags = 0)
    (hno : ¬ SendsTo s.k.procTable TASK_MM c)
    (hown : ∀ a, InMessage (linear s.k.procTable c (s.buf c)) a → ¬ InTask img a)
    (hcall : sysSendrec s.k RECEIVE (proc2pid TASK_MM) (s.buf c) c = .ok k') :
    Cleaning img s₀ parent e (s.afterAwait s.k k' c) n ∧
      (s.afterAwait s.k k' c).runnable.card < s.runnable.card := by
  have hint := ho.handshake.sole.noInt c
  have hmoved := (sysSendrec_receive hint hcall).clientMoved hc
  obtain ⟨htable, _, hmem⟩ := receive_parks hint hno hcall
  have hblocked : (k'.procTable c).pFlags ≠ 0 := by
    rw [htable, park_flags _ _ hready]
    decide
  have hmsg : readMessage k'.mem img.mmMsg = readMessage s.k.mem img.mmMsg :=
    readMessage_frame fun a ha => hmem a fun hca => hown a hca (.inl ha)
  have hsame : ∀ q, q ≠ c → (k'.procTable q).pFlags = (s.k.procTable q).pFlags := by
    intro q hq
    rw [htable]
    exact (sameIpc_park _ _ _ hq).flags
  refine ⟨h.mono rfl rfl (hsame _ hc.symm) hmoved.parent (fun hw => hsame _ fun hpc => ?_) hmsg,
    MmWorld.runnable_lt hmoved hc hready hblocked⟩
  rw [hpc, hready] at hw
  exact hw (by decide)

/-- A receive that finds `task_mm` sending sets it free. -/
theorem Cleaning.awaitTakes {n : ℕ} (h : Cleaning img s₀ parent e s n) (ho : Orderly img s)
    (hsends : SendsTo s.k.procTable TASK_MM c)
    (hcall : sysSendrec s.k RECEIVE (proc2pid TASK_MM) (s.buf c) c = .ok k') :
    n = 1 ∧ Cleaning img s₀ parent e (s.afterAwait s.k k' c) 0 := by
  obtain ⟨hn, hpc, hexits⟩ := h.of_sending hsends.1
  refine ⟨hn, .freeing hpc ?_ hexits⟩
  cases (sysSendrec_receive (ho.handshake.sole.noInt c) hcall).from_proc with
  | taken prev hfound _ htable _ =>
    change (k'.procTable TASK_MM).pFlags = 0
    rw [htable]
    exact dequeue_flags _ prev hfound.fromFlags
  | parked hno _ _ => exact absurd hsends hno

/-! ### `task_mm` -/

/-- The EXIT in hand comes from a process in its `send_recv`. -/
theorem ExitTaken.holds {child : Pid} (h : ExitTaken img s parent child) (ho : Orderly img s) :
    Holds img s child := by
  have hserves := ho.ledger.serves
  unfold Serves at hserves
  rw [h.pc] at hserves
  have hnot : (s.k.procTable TASK_MM).pFlags &&& RECEIVING = 0 := by
    rw [h.ready]
    decide
  obtain ⟨c, hc⟩ := hserves hnot
  rw [proc2pid_inj.mp (h.source.symm.trans hc.source)]
  exact hc

/-- `do_exit` finds the parent waiting. -/
theorem Cleaning.exited (h : ExitTaken img s parent e.child) (ho : Orderly img s)
    (hexits : s.exits = s₀.exits) (hstatus : mmStatus img s.k = e.status)
    (hparent : e.parent = proc2pid parent) {pc' : MmPc}
    (hout : MmOutcome img s.k .dispatch k' pc') :
    Cleaning img s₀ parent e (s.afterDispatch img s.k k' pc') 2 := by
  obtain ⟨p, hp, hcases⟩ := hout.exit_cases h.type h.source
  obtain rfl := proc2pid_inj.mp (hp.symm.trans h.family)
  rcases hcases with ⟨_, hk', hpc'⟩ | ⟨hno, _⟩
  · have hself : e = ⟨(s.k.procTable e.child).pParent, e.child, (s.request e.child).status⟩ := by
      rw [h.family, (h.holds ho).status, hstatus, ← hparent]
    rw [MmWorld.afterDispatch_exit h.source h.type, ← hself]
    refine .sending hpc' ?_ ?_
    · dsimp only
      rw [hk']
      simp [exitWaited, h.ready]
    · dsimp only
      rw [hexits]
  · exact absurd h.waiting hno

/-- The report goes out, or `task_mm` waits for the parent. -/
theorem Cleaning.reportSent {p : Pid}
    (hready : (s.k.procTable TASK_MM).pFlags = 0) (hexits : s.exits = s₀.exits ++ [e])
    (hsent : MmSent (cleanupMessage img s.k e.child) p img.cleanupMsg k') :
    ∃ n, n < 2 ∧ Cleaning img s₀ parent e
      (s.afterSend s.k k' (.cleanupFree e.child (.exit (proc2pid e.child)))) n := by
  cases hsent.outcome.effect with
  | delivered _ _ htable _ =>
    refine ⟨0, by decide, .freeing rfl ?_ hexits⟩
    change (k'.procTable TASK_MM).pFlags = 0
    rw [htable, (sameIpc_deliver _ hsent.ne).flags]
    exact hready
  | queued _ tail _ htable _ =>
    refine ⟨1, by decide, .blocked rfl ?_ hexits⟩
    change Sending (k'.procTable TASK_MM)
    rw [htable, sending_iff]
    simp [enqueue]

/-- A step of `task_mm` goes on to the next phase, or it is the last one. -/
theorem Cleaning.task {n : ℕ} (h : Cleaning img s₀ parent e s n) (ho : Orderly img s)
    (hready : (s.k.procTable TASK_MM).pFlags = 0) {pc' : MmPc}
    (hout : MmOutcome img s.k s.pc k' pc') :
    (∃ n', n' < n ∧ Cleaning img s₀ parent e (s.afterTask img s.k k' pc') n') ∨
      ((s.afterTask img s.k k' pc').pc = .exitScan (proc2pid e.child) 0 ∧
        (s.afterTask img s.k k' pc').exits = s₀.exits ++ [e] ∧
        (k'.procTable e.child).pFlags = FREE_SLOT) := by
  unfold MmWorld.afterTask
  cases h with
  | taken h hexits hstatus hparent =>
    rw [h.pc] at hout ⊢
    exact .inl ⟨2, by decide, .exited h ho hexits hstatus hparent hout⟩
  | sending hpc _ hexits =>
    rw [hpc] at hout ⊢
    cases hout with
    | cleanupSend _ p _ _ hsent => exact .inl (Cleaning.reportSent hready hexits hsent)
  | blocked _ hsend _ => exact absurd hsend (not_sending_of_flags_zero hready)
  | freeing hpc _ hexits =>
    rw [hpc] at hout ⊢
    cases hout with
    | cleanupFree => exact .inr ⟨rfl, hexits, if_pos rfl⟩

/-! ### The next call returns -/

theorem Roomy.shrink (h : Roomy img s) (hin : ∀ p, p ≠ TASK_MM → s'.InCall p → s.InCall p)
    (hsend : ∀ x, x ≠ TASK_MM → Sending (s'.k.procTable x) → Sending (s.k.procTable x))
    (hbuf : s'.buf = s.buf)
    (hlin : ∀ p va, linear s'.k.procTable p va = linear s.k.procTable p va) : Roomy img s' := by
  refine ⟨fun p hp hp' => ?_, fun p x hp hx hpx hp' hx' => ?_⟩
  · rw [hbuf, hlin]
    exact h.task p hp (hin p hp hp')
  · rw [hbuf, hlin, hlin]
    exact h.senders p x hp hx hpx (hin p hp hp') (hsend x hx hx')

/-- Nobody is in a `send_recv`, or in a send, who has not been there before. -/
theorem Roomy.settled (h : Roomy img s) (hpos : ∀ p, s'.pos p = .awaiting → s.pos p = .awaiting)
    (hflags : ∀ x, x ≠ TASK_MM → (s'.k.procTable x).pFlags = (s.k.procTable x).pFlags ∨
      (s'.k.procTable x).pFlags = 0 ∨ (s'.k.procTable x).pFlags = FREE_SLOT)
    (hbuf : s'.buf = s.buf)
    (hlin : ∀ p va, linear s'.k.procTable p va = linear s.k.procTable p va) : Roomy img s' := by
  refine h.shrink (fun x hx hx' => ?_) (fun x hx hx' => ?_) hbuf hlin
  · rcases hx' with hx' | hx'
    · exact .inl (hpos x hx')
    · rcases hflags x hx with hsame | hzero | hfree
      · rw [hsame] at hx'
        exact .inr hx'
      · rw [hzero] at hx'
        exact absurd (by decide) hx'
      · rw [hfree] at hx'
        exact absurd (by decide) hx'
  · unfold Sending at hx' ⊢
    rcases hflags x hx with hsame | hzero | hfree
    · rw [hsame] at hx'
      exact hx'
    · rw [hzero] at hx'
      exact absurd (by decide) hx'
    · rw [hfree] at hx'
      exact absurd (by decide) hx'

/-- The message of a blocked sender is neither in the memory of `task_mm` nor in
    the message of another process. -/
theorem Roomy.sender_apart (h : Roomy img s) (ho : Orderly img s) {p x : Pid} (hp : p ≠ TASK_MM)
    (hx : x ≠ TASK_MM) (hpx : p ≠ x) (hin : s.InCall p) (hsend : Sending (s.k.procTable x))
    {a : Addr} (ha : InMessage (linear s.k.procTable x (s.k.procTable x).msg) a) :
    ¬ InTask img a ∧ ¬ InMessage (linear s.k.procTable p (s.buf p)) a := by
  obtain ⟨hpos, hmsg, _⟩ := ho.handshake.asking x hx hsend
  rw [hmsg] at ha
  exact ⟨h.task x hx (.inl hpos) a ha, fun hpa => h.senders p x hp hx hpx hin hsend a hpa ha⟩

theorem Roomy.quiet (h : Roomy img s) : Quiet img s s.k := ⟨rfl, rfl, fun _ _ => rfl, h.task⟩

/-- A process in its `send_recv` can be sent to. -/
theorem MmWorld.Engaged.stage {q : Pid} (h : s.Engaged 0 q) (ho : Orderly img s)
    (hmm : ¬ Sending (s.k.procTable TASK_MM)) :
    SendChain s.k.procTable q [] ∧ ∃ st : Stage, AtStage (s.buf q) (s.k.procTable q) st := by
  refine ⟨ho.handshake.sole.idle hmm h.ne, ?_⟩
  rcases h.slot with ⟨hflags, _⟩ | ⟨hflags, hmsg, hfrom⟩
  · exact ⟨.due, ho.ready hflags, ho.handshake.sole.noInt q⟩
  · have hreceiving : (s.k.procTable q).pFlags = RECEIVING := by
      rw [hflags]
      decide
    have hocc : Occupied (s.k.procTable q) := by
      rw [Occupied, hreceiving]
      decide
    have hbuf : (s.k.procTable q).msg ≠ 0 := by
      rw [hmsg]
      exact h.buf
    have hsendto : (s.k.procTable q).pSendto = NO_TASK := by
      apply (ho.sound.table.tidy q hocc).receiving
      rw [hreceiving]
      decide
    exact ⟨.parked, ⟨hreceiving, hbuf, .inr ⟨TASK_MM, hfrom⟩, hsendto⟩, hfrom, hmsg⟩

/-- The message to the parent is put together in `cleanup`. -/
theorem cleanupMessage_kept (img : MmImage) (k : Machine) (proc : Pid) {a : Addr}
    (h : ¬ InMessage img.cleanupMsg a) : (cleanupMessage img k proc).mem a = k.mem a := by
  unfold cleanupMessage
  dsimp only
  rw [writeWord_out fun hc => h (inMessage_of_word offM3i1 (by decide) hc),
    writeWord_out fun hc => h (inMessage_of_word offM3i2 (by decide) hc),
    writeWord_out fun hc => h (inMessage_of_word offType (by decide) hc)]

/-- The condition is about requests only. -/
theorem WaitFirst.of_pc {k : Machine} (h : s.pc ≠ .dispatch) : WaitFirst img s k :=
  ⟨fun hpc => absurd hpc h, fun hpc => absurd hpc h, fun hpc => absurd hpc h⟩

/-- `do_exit` returns. -/
theorem ExitTaken.more {child : Pid} (h : ExitTaken img s parent child) (hr : Roomy img s) :
    ∃ s', RoomyStep img s s' := by
  obtain ⟨⟨k', pc'⟩, hstep⟩ : ∃ r, mmStep img 0 s.k s.pc = .ok r := by
    have hfork : EXIT ≠ FORK := by decide
    rw [h.pc]
    unfold mmStep mmDispatch
    dsimp only
    rw [h.type, if_neg hfork, if_pos rfl]
    unfold doExit
    rw [h.source]
    simp only [slot_proc2pid, bind, Except.bind, h.family]
    split
    · exact ⟨_, rfl⟩
    · exact ⟨_, rfl⟩
  have hout := mmStep_outcome hstep
  rw [h.pc] at hout
  obtain ⟨p, hp, hcases⟩ := hout.exit_cases h.type h.source
  obtain rfl := proc2pid_inj.mp (hp.symm.trans h.family)
  rcases hcases with ⟨_, rfl, rfl⟩ | ⟨hno, _⟩
  · have hcond : WaitFirst img s s.k := by
      refine ⟨fun _ htype => ?_, fun _ _ c q hc hq => ?_, fun _ htype => ?_⟩
      · rw [h.type] at htype
        exact absurd htype (by decide)
      · obtain rfl := proc2pid_inj.mp (hc.symm.trans h.source)
        obtain rfl := proc2pid_inj.mp (hq.symm.trans h.family)
        exact h.waiting
      · rw [h.type] at htype
        exact absurd htype (by decide)
    have hkept : ∀ a, InBlockedBuffer s.k.procTable a → Machine.mem
        { s.k with procTable := exitWaited s.k.procTable child p (mmStatus img s.k) } a =
          s.k.mem a := fun _ _ => rfl
    refine ⟨_, .task 0 hr.quiet hcond h.ready hkept hstep, ?_⟩
    unfold MmWorld.afterTask
    rw [h.pc]
    dsimp only
    rw [MmWorld.afterDispatch_exit h.source h.type]
    have hsame := sameQueues_exitWaited s.k.procTable child p (mmStatus img s.k)
    refine hr.shrink (fun q _ hq => ?_) (fun x _ => (hsame.sending x).mp) rfl fun _ _ => rfl
    rcases hq with hq | hq
    · exact .inl hq
    · exact .inr ((receiving_flags p (· &&& ~~~WAITING) (by simp) (fun _ => rfl) q).mp hq)
  · exact absurd h.waiting hno

/-- A send of `task_mm` leaves the others where they are, or sets one free. -/
theorem SendEffect.settles {k : Machine} {d x : Pid} {b : Addr} (h : SendEffect k TASK_MM d b k')
    (hx : x ≠ TASK_MM) : (k'.procTable x).pFlags = (k.procTable x).pFlags ∨
      (k'.procTable x).pFlags = 0 := by
  cases h with
  | delivered _ hflags htable _ =>
    rw [htable]
    by_cases hxd : x = d
    · rw [hxd]
      exact .inr (deliver_flags hflags)
    · exact .inl (sameIpc_deliver _ hxd).flags
  | queued _ tail _ htable _ =>
    rw [htable]
    exact .inl (sameIpc_enqueue _ b tail hx).flags

/-- The send of `cleanup` returns. -/
theorem Cleaning.send_more (haddr : img.cleanupMsg ≠ 0) {child : Pid} {ret : Resume}
    (hpc : s.pc = .cleanupSend child ret) (hready : (s.k.procTable TASK_MM).pFlags = 0)
    (ho : Orderly img s) (hr : Roomy img s) : ∃ s', RoomyStep img s s' := by
  have hmm : ¬ Sending (s.k.procTable TASK_MM) := not_sending_of_flags_zero hready
  have hserves := ho.ledger.serves
  unfold Serves at hserves
  rw [hpc] at hserves
  obtain ⟨_, p, hp, hwaits⟩ := hserves
  have hin : s.InCall p := hwaits.engaged.inCall
  obtain ⟨hqueue, st, hslot⟩ := hwaits.engaged.stage ho hmm
  have hk : s.k.kReenter = 0 := ho.sound.kReenter (by simp [hpc])
  have hflat : NativeFlat s.k.procTable := ho.sound.table.flat
  obtain ⟨k', hcall⟩ : ∃ k', mmSend (cleanupMessage img s.k child) (proc2pid p) img.cleanupMsg =
      .ok k' :=
    mmSend_ok hk hflat (ho.ready hready) hwaits.engaged.ne haddr hslot hqueue List.nodup_nil
  have hstep : mmStep img 0 s.k s.pc = .ok (k', .cleanupFree child ret) := by
    rw [hpc]
    simp only [mmStep, cleanupSend, bind_eq_ok]
    refine ⟨k', ?_, rfl⟩
    rw [hp]
    exact hcall
  have hout := mmStep_outcome hstep
  rw [hpc] at hout
  have hseparate : Separate (linear s.k.procTable p (s.buf p)) img.cleanupMsg :=
    fun a ha hca => hr.task p hwaits.engaged.ne hin a ha (.inr (.inr (.inl hca)))
  cases hout with
  | cleanupSend _ q _ hq hsent =>
    obtain rfl := proc2pid_inj.mp (hq.symm.trans hp)
    have hmem : ∀ a, ¬ InTask img a → ¬ InMessage (linear s.k.procTable q (s.buf q)) a →
        k'.mem a = s.k.mem a := by
      intro a ha hqa
      have hout : ¬ InMessage img.cleanupMsg a := fun hca => ha (.inr (.inr (.inl hca)))
      rw [← cleanupMessage_kept img s.k child hout]
      rcases mmSent_cases (cleanupMessage img s.k child) hflat (ho.ready hready) rfl hslot hqueue
        List.nodup_nil hseparate hsent with ⟨_, _, _, _, _, hk'⟩ | ⟨_, _, _, _, hk'⟩
      · exact hk' a hout hqa
      · exact hk' a hout
    have hkept : ∀ a, InBlockedBuffer s.k.procTable a → k'.mem a = s.k.mem a := by
      rintro a ⟨x, hx, hxa⟩
      have hxm : x ≠ TASK_MM := by
        intro hxm
        rw [hxm] at hx
        exact hmm hx
      have hqx : q ≠ x := by
        intro hqx
        rw [← hqx] at hx
        exact hwaits.engaged.idle.1 hx
      obtain ⟨h1, h2⟩ := hr.sender_apart ho hwaits.engaged.ne hxm hqx hin hx hxa
      exact hmem a h1 h2
    have hcond : WaitFirst img s s.k := .of_pc (by simp [hpc])
    refine ⟨_, .task 0 hr.quiet hcond hready hkept hstep, ?_⟩
    have heff := hsent.outcome.effect
    unfold MmWorld.afterTask
    rw [hpc]
    refine hr.settled (fun _ hx => hx) (fun x hx => ?_) rfl heff.linear_eq
    rcases heff.settles hx with hsame | hzero
    · exact .inl hsame
    · exact .inr (.inl hzero)

/-- The receive of the parent for whom `task_mm` waits returns. -/
theorem Cleaning.receive_more (haddr : img.cleanupMsg ≠ 0) {child : Pid} {ret : Resume}
    (hpc : s.pc = .cleanupFree child ret) (hsend : Sending (s.k.procTable TASK_MM))
    (ho : Orderly img s) (hr : Roomy img s) :
    ∃ s', RoomyStep img s s' := by
  obtain ⟨d, hne, hto, herrand⟩ := ho.ledger.errand hsend
  cases herrand with
  | answer _ hreply =>
    rw [hpc] at hreply
    rcases hreply with hreply | ⟨_, _, hreply, _⟩
    · cases hreply
    · cases hreply
  | noTask hreceive _ _ =>
    rw [hpc] at hreceive
    cases hreceive
  | report proc _ _ hd hready _ hmsg _ _ =>
    have hsends : SendsTo s.k.procTable TASK_MM d := ⟨hsend, hto⟩
    have hin : s.InCall d := hd.engaged.inCall
    have hk : s.k.kReenter = 0 := ho.sound.kReenter (by rw [hpc]; nofun)
    have hint : (s.k.procTable d).hasIntMsg = 0 := ho.handshake.sole.noInt d
    have hflat : NativeFlat s.k.procTable := ho.sound.table.flat
    obtain ⟨hsflags, hrecv, d', _, hto', hhead⟩ := ho.blocked hsend
    obtain rfl : d = d' := proc2pid_inj.mp (hto.symm.trans hto')
    have hinSend : (s.k.procTable TASK_MM).InSend := by
      refine ⟨hsflags, ?_, hrecv, d, hto⟩
      rw [hmsg]
      exact haddr
    obtain ⟨k', hcall⟩ : ∃ k', sysSendrec s.k RECEIVE (proc2pid TASK_MM) (s.buf d) d = .ok k' :=
      sysSendrec_receive_meets hk hflat (ho.ready hready) hint hinSend hto (.inl ⟨rfl, hhead⟩)
        hne.symm hd.engaged.buf
    have hown : ∀ a, InMessage (linear s.k.procTable d (s.buf d)) a → ¬ InTask img a :=
      hr.task d hne hin
    have hseparate : Separate (linear s.k.procTable d (s.buf d)) img.cleanupMsg :=
      fun a ha hca => hown a ha (.inr (.inr (.inl hca)))
    obtain ⟨htable, _, hmem⟩ := receive_meets hflat hint hsends hhead hmsg hseparate hcall
    have hkept : ∀ a, InBlockedBuffer s.k.procTable a → k'.mem a = s.k.mem a := by
      rintro a ⟨x, hx, hxa⟩
      refine hmem a fun hda => ?_
      by_cases hxm : x = TASK_MM
      · rw [hxm, hmsg, linear_task hflat] at hxa
        exact hseparate a hda hxa
      · have hdx : d ≠ x := by
          intro hdx
          rw [← hdx] at hx
          exact not_sending_of_flags_zero hready hx
        exact (hr.sender_apart ho hne hxm hdx hin hx hxa).2 hda
    have hpos : s.pos d = .awaiting := hd.engaged.awaiting hready
    refine ⟨_, .await d hr.quiet hne hready hpos hkept hcall, ?_⟩
    refine hr.settled (fun p hp => ?_) (fun x hx => .inl ?_) rfl
      (sysSendrec_receive hint hcall).linear_eq
    · by_cases hpd : p = d
      · rw [hpd]
        exact hpos
      · change Function.update s.pos d .running p = .awaiting at hp
        rw [Function.update_of_ne hpd] at hp
        exact hp
    · change (k'.procTable x).pFlags = _
      rw [htable]
      exact (sameIpc_dequeue _ none hx).flags

/-- The slot is freed. -/
theorem Cleaning.free_more {child : Pid} {ret : Resume} (hpc : s.pc = .cleanupFree child ret)
    (hready : (s.k.procTable TASK_MM).pFlags = 0) (hr : Roomy img s) :
    ∃ s', RoomyStep img s s' := by
  obtain ⟨⟨k', pc'⟩, hstep⟩ : ∃ r, mmStep img 0 s.k s.pc = .ok r := by
    rw [hpc]
    cases ret with
    | exit pid => exact ⟨_, rfl⟩
    | scan pid i => exact ⟨_, rfl⟩
    | wait => exact ⟨_, rfl⟩
  have hout := mmStep_outcome hstep
  rw [hpc] at hout
  have hcond : WaitFirst img s s.k := .of_pc (by rw [hpc]; nofun)
  cases hout with
  | cleanupFree =>
    have hkept : ∀ a, InBlockedBuffer s.k.procTable a →
        Machine.mem { s.k with procTable := freeSlot s.k.procTable child } a = s.k.mem a :=
      fun _ _ => rfl
    refine ⟨_, .task 0 hr.quiet hcond hready hkept hstep, ?_⟩
    unfold MmWorld.afterTask
    rw [hpc]
    refine hr.settled (fun _ hp => hp) (fun x _ => ?_) rfl fun _ _ => rfl
    by_cases hx : x = child
    · exact .inr (.inr (if_pos hx))
    · exact .inl (if_neg hx)

/-! ### To the end -/

/-- The next call of the party whose turn it is. -/
theorem Cleaning.more {n : ℕ} (h : Cleaning img s₀ parent e s n) (haddr : img.cleanupMsg ≠ 0)
    (ho : Orderly img s) (hr : Roomy img s) : ∃ s', RoomyStep img s s' := by
  cases h with
  | taken h _ _ _ => exact h.more hr
  | sending hpc hready _ => exact Cleaning.send_more haddr hpc hready ho hr
  | blocked hpc hsend _ => exact Cleaning.receive_more haddr hpc hsend ho hr
  | freeing hpc hready _ => exact Cleaning.free_more hpc hready hr

/-- The balance of the books at the end of `cleanup`. -/
theorem Orderly.reaped (ho : Orderly img s) (ho₀ : Orderly img s₀) (hpc₀ : s₀.pc = .dispatch)
    {pid : ℤ} {i : ℕ} (hpc : s.pc = .exitScan pid i) (hexits : s.exits = s₀.exits ++ [e])
    (hfree : (s.k.procTable e.child).pFlags = FREE_SLOT) : Reaped s₀ e s := by
  have hnone : s.unreported = [] ∧ s.unfreed = [] := MmWorld.unreported_none (by rw [hpc]; rfl)
  have hnone₀ : s₀.unreported = [] ∧ s₀.unfreed = [] :=
    MmWorld.unreported_none (by rw [hpc₀]; rfl)
  have hresults := ho.ledger.results
  have hresults₀ := ho₀.ledger.results
  have hfreed := ho.ledger.freed
  have hfreed₀ := ho₀.ledger.freed
  rw [hnone.1, List.append_nil, hexits, List.map_append] at hresults
  rw [hnone₀.1, List.append_nil] at hresults₀
  rw [hnone.2, List.append_nil, hexits, List.map_append] at hfreed
  rw [hnone₀.2, List.append_nil] at hfreed₀
  refine ⟨hexits, ?_, ?_, hfree⟩
  · rw [hresults, hresults₀]
    rfl
  · rw [hfreed, hfreed₀]
    rfl

/-- Everything about a state on the way, with the number of calls that may still be
    made. -/
structure OnTheWay (img : MmImage) (s₀ : MmWorld) (parent : Pid) (e : ExitRecord) (calls : ℕ)
    (s : MmWorld) : Prop where
  orderly : Orderly img s
  roomy : Roomy img s
  cleaning : ∃ n, Cleaning img s₀ parent e s n ∧ calls = 36 * n + s.runnable.card

theorem OnTheWay.step {calls : ℕ} (h : OnTheWay img s₀ parent e calls s) (ho₀ : Orderly img s₀)
    (hpc₀ : s₀.pc = .dispatch) (hstep : RoomyStep img s s') :
    Reaped s₀ e s' ∨ ∃ calls', calls' < calls ∧ OnTheWay img s₀ parent e calls' s' := by
  obtain ⟨n, hcleaning, hcalls⟩ := h.cleaning
  have ho' : Orderly img s' := h.orderly.step hstep.1
  have hle := s'.runnable_le
  -- a phase further, or one ready process less
  have hnext : ∀ n', Cleaning img s₀ parent e s' n' →
      (n' < n ∨ n' = n ∧ s'.runnable.card < s.runnable.card) →
      ∃ calls', calls' < calls ∧ OnTheWay img s₀ parent e calls' s' := by
    intro n' hn' hlt
    refine ⟨36 * n' + s'.runnable.card, by omega, ho', hstep.2, n', hn', rfl⟩
  have hworld := hstep.1
  cases hworld with
  | @ask k k' c m hq hc hready hpos hm hown hkept hcall =>
    obtain ⟨hn, hlt⟩ := (hcleaning.quiet hq).ask (h.orderly.quiet hq) hc hready hown hcall
    rw [s.runnable_quiet hq] at hlt
    exact .inr (hnext n hn (.inr ⟨rfl, hlt⟩))
  | @await k k' c hq hc hready hpos hkept hcall =>
    by_cases hsends : SendsTo k.procTable TASK_MM c
    · obtain ⟨hone, hn⟩ := (hcleaning.quiet hq).awaitTakes (h.orderly.quiet hq) hsends hcall
      exact .inr (hnext 0 hn (.inl (by omega)))
    · have hown : ∀ a, InMessage (linear k.procTable c (s.buf c)) a → ¬ InTask img a := by
        rw [hq.table]
        exact hq.outside c hc (.inl hpos)
      obtain ⟨hn, hlt⟩ :=
        (hcleaning.quiet hq).awaitParks (h.orderly.quiet hq) hc hready hsends hown hcall
      rw [s.runnable_quiet hq] at hlt
      exact .inr (hnext n hn (.inr ⟨rfl, hlt⟩))
  | @task k k' pc' eax hq hC hready hkept hcall =>
    rcases (hcleaning.quiet hq).task (h.orderly.quiet hq) hready (mmStep_outcome hcall) with
      ⟨n', hlt, hn⟩ | ⟨hpc, hexits, hfree⟩
    · exact .inr (hnext n' hn (.inl hlt))
    · refine .inl (ho'.reaped ho₀ hpc₀ hpc hexits ?_)
      rw [(MmWorld.afterTask_sys img s k k' pc').1]
      exact hfree

/-- From every EXIT that finds the parent waiting: whatever the processes do, a
    call of `wait` returns for it. -/
theorem ExitTaken.inevitable {child : Pid} (h : ExitTaken img s parent child)
    (haddr : img.cleanupMsg ≠ 0) (ho : Orderly img s) (hr : Roomy img s) :
    Inevitable (RoomyStep img) (fun s' => ∀ p, (s'.k.procTable p).pFlags &&& HANGING = 0)
      (Reaped s ⟨proc2pid parent, child, (s.request child).status⟩) s := by
  have hstart : OnTheWay img s parent ⟨proc2pid parent, child, (s.request child).status⟩
      (36 * 3 + s.runnable.card) s :=
    ⟨ho, hr, 3, .taken h rfl (h.holds ho).status.symm rfl, rfl⟩
  refine Inevitable.of_measure (fun n s' hI => .inr ⟨hI.orderly.ledger.hanging, ?_⟩)
    (fun n s' s'' hI hs => hI.step ho h.pc hs) hstart
  obtain ⟨n, hcleaning, _⟩ := hI.cleaning
  exact hcleaning.more haddr hI.orderly hI.roomy

end Delivery

end SimpleOs
