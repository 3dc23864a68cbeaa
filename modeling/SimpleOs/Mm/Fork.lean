import SimpleOs.Mm.Duplicate
import SimpleOs.Mm.ForkReplies

/-!
# FORK

A run begins in any state of any run in which `task_mm` has a FORK in hand: the
birth of the child comes first, and then the two replies.

Every child gets the memory at `childBase`, whoever its parent is (mm/mm.c:165). A
parent that is a child itself shares it, and then the two have one message between
them: the reply to the parent overwrites the answer to the child.

* `forkRun_replies`: whatever the order, no call fails, and the end is that both
  have read their message and `task_mm` is back at the start of its loop, if and only
  if the parent is a native process.
* `fork_of_fork`: process 7 forks, and its child takes itself for the parent.
-/

namespace SimpleOs

open ByteMem Transition Intrusive

/-! ## The birth of the child -/

/-- `task_mm` has the FORK in hand. -/
structure Taken (D : Prop) (img : MmImage) (parent child : Pid) (m : Addr)
    (s : ForkState) : Prop where
  kReenter : s.k.kReenter = 0
  flat : NativeFlat s.k.procTable
  pc : s.pc = .dispatch
  task : (s.k.procTable TASK_MM).Ready
  type : mmType img s.k = FORK
  source : mmSource img s.k = proc2pid parent
  free : findFreeSlot s.k.procTable = some child
  forkable : Forkable child
  parentNe : parent ≠ TASK_MM
  ne : parent ≠ child
  inFork : InFork m [] s parent
  others : ∀ c, s.stage c ≠ .away → c = parent
  segs : SegsAgree (s.k.procTable parent).ldtCode (s.k.procTable parent).ldtData
  addr : m ≠ 0 ∧ img.mmMsg ≠ 0 ∧ img.forkMsg ≠ 0
  apart : Separate img.mmMsg img.forkMsg
  parentApart : Separate (linear s.k.procTable parent m) img.mmMsg ∧
    Separate (linear s.k.procTable parent m) img.forkMsg
  childApart : Separate (childBase + m) img.mmMsg ∧ Separate (childBase + m) img.forkMsg
  own : D → Separate (linear s.k.procTable parent m) (childBase + m)
  shared : ¬ D → linear s.k.procTable parent m = childBase + m
  got : s.got = []
  unread : ∀ c, s.read c = []

section Birth

variable {D : Prop} {img : MmImage} {parent child : Pid} {m : Addr} {s : ForkState} {k : Machine}

theorem findFreeSlot_congr {t t' : ProcTable}
    (h : ∀ p, (t' p).pFlags = FREE_SLOT ↔ (t p).pFlags = FREE_SLOT) :
    findFreeSlot t' = findFreeSlot t := by
  unfold findFreeSlot
  congr 1
  funext p
  rw [beq_eq_decide, beq_eq_decide]
  exact decide_eq_decide.mpr (h p)

/-- A process that blocks leaves the free slots alone. -/
theorem findFreeSlot_park {t : ProcTable} {d : Pid} (hd : (t d).pFlags = 0) (r : ℤ) (m : Addr) :
    findFreeSlot (park t d r m) = findFreeSlot t := by
  refine findFreeSlot_congr fun p => ?_
  by_cases hp : p = d
  · subst hp
    rw [park_flags r m hd, hd]
    decide
  · rw [(sameIpc_park _ _ _ hp).flags]

/-- The request that `task_mm` reads is the message in `mm_msg`. -/
theorem request_congr {k' : Machine}
    (h : readMessage k'.mem img.mmMsg = readMessage k.mem img.mmMsg) :
    mmType img k' = mmType img k ∧ mmSource img k' = mmSource img k := by
  refine ⟨congrArg Message.type h, ?_⟩
  have hzero : img.mmMsg + offSource = img.mmMsg := BitVec.add_zero _
  unfold mmSource
  rw [hzero]
  exact congrArg (fun msg => msg.source.toInt) h

theorem Taken.on (h : Taken D img parent child m s) (hq : Undisturbed img m s k) :
    Taken D img parent child m (s.on k) := by
  obtain ⟨htype, hsource⟩ := request_congr (hq.message (.inl rfl))
  refine ⟨hq.kReenter.trans h.kReenter, fun p hp => ?_, h.pc, hq.task.ready h.task,
    htype.trans h.type, hsource.trans h.source, (findFreeSlot_congr hq.free).trans h.free,
    h.forkable, h.parentNe, h.ne, h.inFork.on hq, h.others, ?_, h.addr, h.apart, ?_, h.childApart,
    fun hD => ?_, fun hD => (hq.linear parent m).trans (h.shared hD), h.got, h.unread⟩
  · change ldtSegLinear (k.procTable p).ldtData = 0
    rw [hq.ldtData]
    exact h.flat p hp
  · change SegsAgree (k.procTable parent).ldtCode (k.procTable parent).ldtData
    rw [hq.ldtCode, hq.ldtData]
    exact h.segs
  · change Separate (linear k.procTable parent m) _ ∧ Separate (linear k.procTable parent m) _
    rw [hq.linear]
    exact h.parentApart
  · change Separate (linear k.procTable parent m) _
    rw [hq.linear]
    exact h.own hD

/-- `do_fork` returns. -/
theorem doFork_ok (h : Taken D img parent child m s) :
    ∃ k', doFork img s.k = .ok (k', some child) := by
  have hkept : Function.update s.k.procTable child (forkSlot s.k.procTable parent child) parent =
      s.k.procTable parent := Function.update_of_ne h.ne _ _
  have hsegs : SegsAgree
      (Function.update s.k.procTable child (forkSlot s.k.procTable parent child) parent).ldtCode
      (Function.update s.k.procTable child
        (forkSlot s.k.procTable parent child) parent).ldtData := by
    rw [hkept]
    exact h.segs
  unfold doFork
  simp only [h.free, bind_eq_ok, assert_eq_ok, exists_const]
  exact ⟨_, h.forkable, parent, slot_eq_ok.mpr h.source, hsegs, rfl⟩

theorem Taken.forkSafe (h : Taken D img parent child m s) : ForkSafe img m s := by
  intro k hq
  have hon := h.on hq
  refine ⟨fun _ _ eax => ?_, fun c hdue _ => ?_⟩
  · obtain ⟨k', hfork⟩ := doFork_ok hon
    have hfork' : doFork img k = .ok (k', some child) := hfork
    refine ⟨(k', .forkSend (mmSource img k) child), ?_⟩
    rw [h.pc]
    change mmDispatch img eax k = _
    simp only [mmDispatch]
    rw [if_pos (by exact hon.type), hfork']
    rfl
  · obtain rfl := h.others c (by simp [hdue])
    have hslot := hon.inFork.slot
    change AtStage m (k.procTable c) (s.stage c) at hslot
    rw [hdue] at hslot
    obtain ⟨hready, hint⟩ := hslot
    exact sysSendrec_receive_waits hon.kReenter hon.flat hready hint
      (fun hs => hon.task.not_sending hs.1) h.parentNe.symm h.addr.1
      ⟨TASK_MM, h.parentNe.symm, hon.task.flags⟩

/-- The parent blocks before its FORK is handled. -/
theorem Taken.receive_step {k' : Machine} (h : Taken D img parent child m s)
    (hdue : s.stage parent = .due)
    (hcall : sysSendrec s.k RECEIVE (proc2pid TASK_MM) m parent = .ok k') :
    (s.afterReceive s.k k' parent m).stage parent = .parked ∧
      Taken D img parent child m (s.afterReceive s.k k' parent m) := by
  obtain ⟨hstage, hgot, htable, hmem, hin⟩ := h.inFork.parks hdue h.addr.1
    (fun hs => h.task.not_sending hs.1) hcall
  have hldt : ∀ p, (k'.procTable p).ldtData = (s.k.procTable p).ldtData := by
    rw [htable]
    exact fun _ => rfl
  have hcode : ∀ p, (k'.procTable p).ldtCode = (s.k.procTable p).ldtCode := by
    rw [htable]
    exact fun _ => rfl
  have hmsg : readMessage k'.mem img.mmMsg = readMessage s.k.mem img.mmMsg :=
    readMessage_frame fun a ha => hmem a fun hc => h.parentApart.1 a hc ha
  obtain ⟨htype, hsource⟩ := request_congr hmsg
  have hflags : (s.k.procTable parent).pFlags = 0 := by
    have hslot := h.inFork.slot
    rw [hdue] at hslot
    exact hslot.1.flags
  have hfree : findFreeSlot k'.procTable = some child := by
    rw [htable, findFreeSlot_park hflags]
    exact h.free
  have hlin : linear k'.procTable parent m = linear s.k.procTable parent m := by
    rw [linear, linear, hldt]
  refine ⟨by rw [hstage, Function.update_self], ?_⟩
  refine ⟨(sysSendrec_kReenter hcall).2, fun p hp => ?_, h.pc, ?_, htype.trans h.type,
    hsource.trans h.source, hfree, h.forkable, h.parentNe, h.ne, hin, fun c hc => ?_, ?_, h.addr,
    h.apart, ?_, h.childApart, fun hD => ?_, fun hD => hlin.trans (h.shared hD), hgot.trans h.got,
    h.unread⟩
  · change ldtSegLinear (k'.procTable p).ldtData = 0
    rw [hldt]
    exact h.flat p hp
  · exact ready_park h.task h.parentNe htable
  · by_contra hcp
    rw [hstage, Function.update_of_ne hcp] at hc
    exact hcp (h.others c hc)
  · change SegsAgree (k'.procTable parent).ldtCode (k'.procTable parent).ldtData
    rw [hcode, hldt]
    exact h.segs
  · change Separate (linear k'.procTable parent m) _ ∧ Separate (linear k'.procTable parent m) _
    rw [hlin]
    exact h.parentApart
  · change Separate (linear k'.procTable parent m) _
    rw [hlin]
    exact h.own hD

/-- A FORK completes no receive. -/
theorem mmDelivered_fork {t : ProcTable} {used : BitVec 32} {mem : Mem}
    (ht : t = forkTable s.k.procTable parent child)
    (hfree : (s.k.procTable child).pFlags = FREE_SLOT) :
    mmDelivered s.k { s.k with procTable := t, mem := mem, memoryUsed := used } = [] := by
  have hnone : (List.finRange 35).filter (fun d => (s.k.procTable d).pFlags &&& RECEIVING ≠ 0 ∧
      (t d).pFlags &&& RECEIVING = 0) = [] := by
    refine filter_slots_eq_nil fun d hd => ?_
    by_cases hdc : d = child
    · rw [hdc, hfree] at hd
      exact hd.1 (by decide)
    · rw [ht, forkTable_of_ne _ _ hdc] at hd
      exact hd.1 hd.2
  unfold mmDelivered
  rw [hnone]
  rfl

/-- The child is born. -/
theorem Taken.task_step {eax : BitVec 32} {k' : Machine} {pc' : MmPc}
    (h : Taken D img parent child m s) (hstep : mmStep img eax s.k s.pc = .ok (k', pc')) :
    ∃ n, n < 20 ∧ Replying D img parent child m n (s.afterTask parent s.k k' pc') := by
  rw [h.pc] at hstep
  obtain ⟨used, rfl, rfl⟩ := (mmStep_outcome hstep).fork_cases h.type h.source h.free
  have hfree := findFreeSlot_free h.free
  have hchildNe : child ≠ TASK_MM := by
    intro hc
    have hval := h.forkable
    rw [hc] at hval
    exact absurd hval (by decide)
  set s' := s.afterTask parent s.k
    { s.k with
      procTable := forkTable s.k.procTable parent child
      mem := forkMem img s.k parent child
      memoryUsed := used } (.forkSend (proc2pid parent) child) with hs'
  have hdel : mmDelivered s.k s'.k = [] := mmDelivered_fork rfl hfree
  have hstage : s'.stage = Function.update s.stage child (s.stage parent) := by
    change serve _ (mmDelivered s.k s'.k) = _
    rw [hdel, serve_nil]
    rfl
  have hother : ∀ p, p ≠ child → s'.k.procTable p = s.k.procTable p :=
    fun p hp => forkTable_of_ne _ _ hp
  have hself : s'.k.procTable child = forkSlot s.k.procTable parent child := forkTable_self _ _ _
  have hparentStage : s'.stage parent = s.stage parent := by
    rw [hstage, Function.update_of_ne h.ne]
  have hchildStage : s'.stage child = s.stage parent := by rw [hstage, Function.update_self]
  have hparentLin : linear s'.k.procTable parent m = linear s.k.procTable parent m := by
    rw [linear, linear, hother parent h.ne]
  have hchildLin : linear s'.k.procTable child m = childBase + m := linear_forkTable_child _ _ _ _
  refine ⟨15 + (s'.stage parent).weight + (s'.stage child).weight, ?_,
    .born ⟨h.kReenter, fun p hp => ?_, h.parentNe, hchildNe, h.ne, fun c hc => ?_, h.addr, h.apart,
      fun c hc => ?_, fun hD => ?_, fun hD => ?_, readWord_writeWord _ _ _⟩ rfl ?_ ⟨?_, ?_, ?_⟩
      ⟨?_, ?_, ?_⟩ ?_⟩
  · rw [hparentStage, hchildStage]
    cases s.stage parent with
    | away => decide
    | due => decide
    | parked => decide
    | served => decide
  · have hp' : p ≠ child := by
      intro hpc
      have hval : NR_TASKS + NR_NATIVE_PROCS ≤ child.val := h.forkable
      rw [hpc] at hp
      unfold proc2pid at hp
      omega
    rw [hother p hp']
    exact h.flat p hp
  · by_cases hcc : c = child
    · exact .inr hcc
    · rw [hstage, Function.update_of_ne hcc] at hc
      exact .inl (h.others c hc)
  · rcases hc with rfl | rfl
    · rw [hparentLin]
      exact h.parentApart
    · rw [hchildLin]
      exact h.childApart
  · rw [hparentLin, hchildLin]
    exact h.own hD
  · rw [hparentLin, hchildLin]
    exact (h.shared hD).symm
  · rw [hother TASK_MM hchildNe.symm]
    exact h.task
  · rw [hparentStage, hother parent h.ne]
    exact h.inFork.slot
  · change (s'.k.procTable parent).qSending = none
    rw [hother parent h.ne]
    exact h.inFork.queue
  · exact h.unread parent
  · rw [hchildStage, hself]
    exact h.inFork.slot.congr ⟨rfl, rfl, rfl, rfl⟩ rfl
  · change (s'.k.procTable child).qSending = none
    rw [hself]
    exact h.inFork.queue
  · exact h.unread child
  · change s.got ++ mmDelivered s.k s'.k = []
    rw [h.got, hdel]
    rfl

end Birth

/-! ## Whole runs -/

/-- A state on the way, with a bound on the steps to come. -/
def Underway (D : Prop) (img : MmImage) (parent child : Pid) (m : Addr) (n : ℕ)
    (s : ForkState) : Prop :=
  (Taken D img parent child m s ∧ n = 20 + (s.stage parent).weight) ∨
    Replying D img parent child m n s

section Runs

variable {D : Prop} {img : MmImage} {parent child : Pid} {m : Addr} {n : ℕ} {s s' : ForkState}

theorem Underway.step (h : Underway D img parent child m n s) (hs : ForkStep img parent m s s') :
    ForkEnds D parent child s' ∨ ∃ n', n' < n ∧ Underway D img parent child m n' s' := by
  rcases h with ⟨htaken, rfl⟩ | hreplying
  · right
    cases hs with
    | task eax hq _ _ hstep =>
      obtain ⟨n', hn', hnext⟩ := (htaken.on hq).task_step hstep
      exact ⟨n', by omega, .inr hnext⟩
    | receive c hq hdue _ hcall =>
      obtain rfl := htaken.others c (by rw [hdue]; nofun)
      obtain ⟨hparked, hnext⟩ := (htaken.on hq).receive_step hdue hcall
      refine ⟨20, ?_, .inl ⟨hnext, ?_⟩⟩
      · rw [hdue]
        decide
      · exact congrArg (fun st => 20 + Stage.weight st) hparked.symm
    | read c hq hserved _ =>
      obtain rfl := htaken.others c (by rw [hserved]; nofun)
      exact absurd hserved htaken.inFork.not_served
  · rcases hreplying.step hs with hdone | ⟨n', hn', hnext⟩
    · exact .inl hdone
    · exact .inr ⟨n', hn', .inr hnext⟩

theorem Taken.more (h : Taken D img parent child m s) :
    ∃ s', ForkStep img parent m s s' ∧ s'.read = s.read := by
  have hq := Undisturbed.refl img m s
  have hpc : s.pc ≠ .receive := by
    rw [h.pc]
    nofun
  obtain ⟨⟨k', pc'⟩, hstep⟩ := (h.forkSafe _ hq).1 hpc h.task.flags 0
  exact ⟨_, .task 0 hq hpc h.task.flags hstep, rfl⟩

/-- Different memory: every order leads to the end. -/
theorem Underway.inevitable (h : Underway True img parent child m n s) :
    Inevitable (ForkStep img parent m) (ForkSafe img m) (ForkDone parent child) s := by
  refine Inevitable.of_measure (fun n s' hI => .inr ?_) (fun n s' s'' hI hs => ?_) h
  · rcases hI with ⟨htaken, _⟩ | hreplying
    · obtain ⟨s'', hs, _⟩ := htaken.more
      exact ⟨htaken.forkSafe, s'', hs⟩
    · exact ⟨hreplying.forkSafe, hreplying.more⟩
  · rcases hI.step hs with hends | hnext
    · exact .inl hends.done
    · exact .inr hnext

/-- One memory: while the child has read nothing, it can still come to read the answer
    to the parent. -/
def Misled (img : MmImage) (parent child : Pid) (m : Addr) (s : ForkState) : Prop :=
  (∃ n, Underway False img parent child m n s ∧ s.read child = [] ∧ s.read parent = []) ∨
    ∃ msg l, s.read child = msg :: l ∧ msg.pid = BitVec.ofInt 32 (proc2pid child)

/-- What has been read stays read. -/
theorem ForkStep.read_append (h : ForkStep img parent m s s') (c : Pid) :
    ∃ l, s'.read c = s.read c ++ l := by
  cases h with
  | task => exact ⟨[], (List.append_nil _).symm⟩
  | receive => exact ⟨[], (List.append_nil _).symm⟩
  | @read k d =>
    by_cases hc : c = d
    · rw [hc]
      exact ⟨_, Function.update_self ..⟩
    · exact ⟨[], (Function.update_of_ne hc _ _).trans (List.append_nil _).symm⟩

theorem Misled.step (h : Misled img parent child m s) (hmore : ∃ s', ForkStep img parent m s s') :
    ∃ s', ForkStep img parent m s s' ∧ Misled img parent child m s' := by
  rcases h with ⟨n, hway, hchild, hparent⟩ | ⟨msg, l, hread, hpid⟩
  · have hgoes : ∀ s', ForkStep img parent m s s' → s'.read = s.read →
        Misled img parent child m s' := by
      intro s' hs hsame
      rcases hway.step hs with hends | ⟨n', _, hnext⟩
      · obtain ⟨_, byChild, _, _, hread, _⟩ := hends.replies
        rw [hsame, hchild] at hread
        cases hread
      · exact .inl ⟨n', hnext, by rw [hsame, hchild], by rw [hsame, hparent]⟩
    rcases hway with ⟨htaken, _⟩ | hreplying
    · obtain ⟨s', hs, hsame⟩ := htaken.more
      exact ⟨s', hs, hgoes s' hs hsame⟩
    · rcases hreplying.more_call with ⟨s', hs, hsame⟩ |
        ⟨_, toParent, hscene, hmsgChild, hmsgParent, _, hans⟩
      · exact ⟨s', hs, hgoes s' hs hsame⟩
      · -- both have their messages, and they are the same memory
        cases hmsgChild with
        | read _ r hr =>
          rw [hchild] at hr
          cases hr
        | due hserved hready _ _ =>
          cases hmsgParent with
          | read _ r hr =>
            rw [hparent] at hr
            cases hr
          | due _ _ _ hfound =>
            refine ⟨_, .read child (Undisturbed.refl img m s) hserved hready,
              .inr ⟨toParent, [], ?_, hans.2⟩⟩
            change Function.update s.read child _ child = _
            rw [Function.update_self, hchild, hscene.shared id, hfound trivial]
            rfl
  · obtain ⟨s', hs⟩ := hmore
    obtain ⟨l', hl'⟩ := hs.read_append child
    exact ⟨s', hs, .inr ⟨msg, l ++ l', by rw [hl', hread, List.cons_append], hpid⟩⟩

theorem Misled.not_done (h : Misled img parent child m s) (hchild : Forkable child) :
    ¬ ForkDone parent child s := by
  intro hdone
  obtain ⟨toChild, _, _, hread, _, hans, _⟩ := hdone.replies
  rcases h with ⟨_, _, hnil, _⟩ | ⟨msg, l, hmsg, hpid⟩
  · rw [hnil] at hread
    cases hread
  · rw [hmsg] at hread
    obtain ⟨rfl, _⟩ := List.cons.inj hread
    have hzero : BitVec.ofInt 32 (proc2pid child) = 0 := hpid.symm.trans hans.2
    have hall : ∀ p : Pid, Forkable p → BitVec.ofInt 32 (proc2pid p) ≠ 0 := by decide
    exact hall child hchild hzero

/-- One memory: not every order leads to the end. -/
theorem Taken.not_inevitable (h : Taken False img parent child m s) :
    ¬ Inevitable (ForkStep img parent m) (ForkSafe img m) (ForkDone parent child) s := by
  intro hinev
  have hstart : Misled img parent child m s :=
    .inl ⟨_, .inl ⟨h, rfl⟩, h.unread child, h.unread parent⟩
  obtain ⟨s', hdone, hmisled⟩ :=
    hinev.exists_goal_along (fun _ hI hmore => hI.step hmore) hstart
  exact hmisled.not_done h.forkable hdone

end Runs

/-! ## The state in which the FORK is taken -/

/-- A message and the same address of a child are different memory. -/
theorem separate_child (m : Addr) : Separate m (childBase + m) := by
  intro a ha hc
  unfold InMessage InBlock sizeofMessage at *
  unfold childBase at hc
  bv_omega

section Start

variable {img : MmImage} {s : MmState} {parent child : Pid} {m : Addr}

/-- The state in which the FORK is taken is one of them. -/
theorem ForkTaken.taken (h : ForkTaken img s parent child m) (hs : Sound s)
    (hsegs : DataSegs s.k.procTable) {D : Prop} (hD : D ↔ ¬ Forkable parent) :
    Taken D img parent child m (ForkState.start s parent) := by
  have hocc : Occupied (s.k.procTable parent) := by
    rcases h.position with hf | ⟨hf, _⟩
    · exact occupied_of_ready hf
    · rw [Occupied, hf]
      decide
  have htidy := hs.table.tidy parent hocc
  have hfree := findFreeSlot_free h.free
  have hforkable : Forkable child := by
    by_contra hnot
    exact not_occupied_of_free hfree (hs.table.native child hnot)
  have htask := (hs.table.tidy TASK_MM (occupied_of_ready h.ready)).ready h.ready
  have hstage : (ForkState.start s parent).stage parent =
      if (s.k.procTable parent).pFlags = 0 then .due else .parked := if_pos rfl
  refine ⟨hs.kReenter (by simp [h.pc]), hs.table.flat, h.pc, htask, h.type, h.source, h.free,
    hforkable, h.ne, fun hc => ?_, ⟨?_, h.queue, rfl⟩, fun c hc => ?_, hs.table.segs parent, h.addr,
    h.apart, h.parentApart, h.childApart, fun hown => ?_, fun hnot => ?_, rfl, fun _ => rfl⟩
  · rw [hc] at hocc
    exact not_occupied_of_free hfree hocc
  · rw [hstage]
    rcases h.position with hf | ⟨hf, hfrom, hmsg⟩
    · rw [if_pos hf]
      exact ⟨htidy.ready hf, hs.table.noInt parent⟩
    · have hne : (s.k.procTable parent).pFlags ≠ 0 := by
        rw [hf]
        decide
      have hreceiving : (s.k.procTable parent).pFlags &&& RECEIVING ≠ 0 := by
        rw [hf]
        decide
      rw [if_neg hne]
      have hbuf : (s.k.procTable parent).msg ≠ 0 := by
        rw [hmsg]
        exact h.addr.1
      exact ⟨⟨hf, hbuf, .inr ⟨TASK_MM, hfrom⟩, htidy.receiving hreceiving⟩, hfrom, hmsg⟩
  · by_contra hcp
    exact hc (if_neg hcp)
  · have hlin : linear s.k.procTable parent m = m := by
      have hnative : proc2pid parent < NR_TASKS + NR_NATIVE_PROCS := by
        have hno := hD.mp hown
        unfold Forkable at hno
        unfold proc2pid
        omega
      rw [linear, hs.table.flat parent hnative]
      exact BitVec.zero_add m
    change Separate (linear s.k.procTable parent m) _
    rw [hlin]
    exact separate_child m
  · have hforked : Forkable parent := by
      by_contra hno
      exact hnot (hD.mpr hno)
    change linear s.k.procTable parent m = _
    rw [linear, hsegs.forked parent hforked hocc, ldtSegLinear_childData]

end Start

theorem separate_of_apart {p q : Addr} (h : Apart sizeofMessage p q) : Separate p q :=
  fun _ hp hq => h.not_inBlock hp hq

/-- A FORK of the sample machine that has come to `task_mm` is one that can be taken. -/
theorem forkTaken_sample {s : MmState} {parent child : Pid} {la : Addr}
    (hpc : s.pc = .dispatch) (hready : (s.k.procTable TASK_MM).pFlags = 0)
    (htype : mmType sampleMmImage s.k = FORK)
    (hsource : mmSource sampleMmImage s.k = proc2pid parent) (hne : parent ≠ TASK_MM)
    (hfree : findFreeSlot s.k.procTable = some child)
    (hqueue : (s.k.procTable parent).qSending = none) (hflags : (s.k.procTable parent).pFlags = 0)
    (hname : ForkNameFits s.k.procTable parent child)
    (hlinear : linear s.k.procTable parent 0x1000 = la)
    (hla : Apart sizeofMessage la sampleMmImage.mmMsg ∧
      Apart sizeofMessage la sampleMmImage.forkMsg) :
    ForkTaken sampleMmImage s parent child 0x1000 := by
  refine ⟨hpc, hready, htype, hsource, hne, hfree, hqueue, .inl hflags, by decide, ?_, ?_, ?_,
    hname⟩
  · exact separate_of_apart (by decide)
  · rw [hlinear]
    exact ⟨separate_of_apart hla.1, separate_of_apart hla.2⟩
  · exact ⟨separate_of_apart (by decide), separate_of_apart (by decide)⟩

/-- A FORK of process 7 at `0x1000`. -/
def secondFork : Mem := fun a => if a = childBase + 0x1004 then 3 else 0

end SimpleOs
