import SimpleOs.Mm.Books
import SimpleOs.Mm.Exec

/-!
# `task_mm` keeps the books

What the steps of `task_mm` do to the books of `exit` and `wait`.

* `Ledger.step`: every step of a run in which every EXIT finds the parent waiting
  keeps them balanced.
-/

namespace SimpleOs

open ByteMem Transition

/-! ## `task_mm` -/

section Task

variable {img : MmImage} {s s' : MmWorld} {k' : Machine} {c d : Pid} {b : Addr}

/-- The message that a send of `task_mm` has put into the buffer of `d`. -/
theorem SendEffect.task_message {k₁ : Machine} (he : SendEffect k₁ TASK_MM d b k')
    (hacc : Accepts k₁.procTable d TASK_MM) (hlin : linear k₁.procTable TASK_MM b = b)
    (hapart : Separate (linear k₁.procTable d (k₁.procTable d).msg) b) :
    readMessage k'.mem (linear k₁.procTable d (k₁.procTable d).msg) =
      fromTask (readMessage k₁.mem b) := by
  cases he with
  | delivered _ _ _ hmem =>
    have hstamp := stampSource_message k₁ TASK_MM b
    rw [hlin] at hstamp hmem
    rw [hmem, readMessage_copy hapart.noForwardOverlap]
    exact hstamp
  | queued hno => exact absurd hacc hno

/-- What `task_mm` delivers to a process that waits for it. -/
theorem SendEffect.event {k₁ : Machine} (he : SendEffect k₁ TASK_MM d b k')
    (htask : (s.k.procTable TASK_MM).pFlags = 0) (hk₁ : k₁.procTable = s.k.procTable)
    (hacc : Accepts s.k.procTable d TASK_MM) (hlin : linear s.k.procTable TASK_MM b = b)
    (hapart : Separate (linear s.k.procTable d (s.k.procTable d).msg) b) :
    mmDelivered s.k k' = [⟨TASK_MM, d, fromTask (readMessage k₁.mem b)⟩] := by
  rw [← hk₁] at hacc hlin hapart
  rcases mmDelivered_eq htask hk₁ he with ⟨_, hdel⟩ | ⟨hno, _⟩
  · rw [hdel, ← hk₁, he.task_message hacc hlin hapart]
  · rw [← hk₁] at hno
    exact absurd hacc hno

/-- The books after a step that changes the slot of one process `x`, and at most
    the IPC flags in it. -/
theorem Ledger.oneSlot {x : Pid} (h : Ledger img s) (hs : Handshake img s)
    (hothers : ∀ q, q ≠ x → Untouched s s' q)
    (hself : (s'.k.procTable x).pFlags &&& HANGING = 0 ∧ (s'.k.procTable x).pFlags &&& WAITING = 0)
    (hsend : x ≠ TASK_MM → ¬ Sending (s'.k.procTable x))
    (hlin : ∀ p va, linear s'.k.procTable p va = linear s.k.procTable p va)
    (hkept : ∀ a, InBlockedBuffer s.k.procTable a → s'.k.mem a = s.k.mem a)
    (hserves : Serves img s')
    (herrand : Sending (s'.k.procTable TASK_MM) →
      ∃ d, d ≠ TASK_MM ∧ (s'.k.procTable TASK_MM).pSendto = proc2pid d ∧ Errand img s' d)
    (hresults : s'.reported ++ s'.unreported = s'.exits.map ExitRecord.report)
    (hfreed : s'.freed ++ s'.unfreed = s'.exits.map fun e => (e.child, FREE_SLOT)) :
    Ledger img s' := by
  refine ⟨fun p => ?_, fun y hy hys => ?_, fun q hq => ?_, hserves, herrand, hresults, hfreed⟩
  · by_cases hpx : p = x
    · rw [hpx]
      exact hself.1
    · rw [(hothers p hpx).ipc.flags]
      exact h.hanging p
  · have hyx : y ≠ x := by
      intro hyx
      rw [hyx] at hy hys
      exact hsend hy hys
    have hun := hothers y hyx
    have hys' : Sending (s.k.procTable y) := hun.ipc.sending.mp hys
    rw [hlin, hun.buf, hun.request]
    exact ⟨(h.asked y hy hys').1, h.asked_kept hs hy hys' hkept⟩
  · have hqx : q ≠ x := by
      intro hqx
      rw [hqx] at hq
      exact hq hself.2
    rw [(hothers q hqx).ipc.flags] at hq
    exact (h.asleep q hq).untouched (hothers q hqx)

/-- The books after a send of `task_mm` to `d`, the message at `b` having been put
    together in `k₁`. -/
theorem Ledger.send (h : Ledger img s) (hs : Handshake img s) (k₁ : Machine)
    (htask : (s.k.procTable TASK_MM).pFlags = 0) (hk₁ : k₁.procTable = s.k.procTable)
    (he : SendEffect k₁ TASK_MM d b k') {pc' : MmPc} (hs' : s' = s.afterSend s.k k' pc')
    (hd : s.Engaged 0 d) (hapart : Separate (linear s.k.procTable d (s.buf d)) b)
    (hkept : ∀ a, InBlockedBuffer s.k.procTable a → k'.mem a = s.k.mem a)
    (hserves : (∀ q, q ≠ d → q ≠ TASK_MM → Untouched s s' q) → Serves img s')
    (herrand : Untouched s s' d → (s.k.procTable d).pFlags = 0 →
      (s'.k.procTable TASK_MM).msg = b →
      (∀ p, (s'.k.procTable p).pParent = (s.k.procTable p).pParent ∧
        (s'.k.procTable p).exitStatus = (s.k.procTable p).exitStatus) →
      readMessage s'.k.mem b = fromTask (readMessage k₁.mem b) → Errand img s' d)
    (hreport : (k'.procTable d).pFlags = 0 → reports (s.waitResults k'
      [⟨TASK_MM, d, fromTask (readMessage k₁.mem b)⟩]) = s.unreported)
    (hdone : ¬ Sending (s'.k.procTable TASK_MM) → s'.unreported = [])
    (hblocked : Sending (s'.k.procTable TASK_MM) →
      (∀ p, (s'.k.procTable p).pParent = (s.k.procTable p).pParent ∧
        (s'.k.procTable p).exitStatus = (s.k.procTable p).exitStatus) →
      s'.unreported = s.unreported)
    (hfreed : s'.unfreed = s.unfreed) : Ledger img s' := by
  subst hs'
  have hdm : d ≠ TASK_MM := hd.ne
  have hfamily : ∀ p, (k'.procTable p).pParent = (s.k.procTable p).pParent ∧
      (k'.procTable p).exitStatus = (s.k.procTable p).exitStatus := by
    intro p
    rw [← hk₁]
    exact he.family p
  have hlin : ∀ p va, linear k'.procTable p va = linear s.k.procTable p va := by
    intro p va
    rw [he.linear_eq, hk₁]
  have hlinTask : linear k₁.procTable TASK_MM b = b := by
    rw [hk₁]
    exact hs.sole.linear_task b
  have hdel := mmDelivered_eq htask hk₁ he
  have he' := he
  cases he with
  | delivered hacc hflags htable hmem =>
    rw [hk₁] at hacc hflags htable
    have hbuf : (s.k.procTable d).msg = s.buf d := (hd.parked hacc).2.1
    have hipc : ∀ q, q ≠ d → SameIpc (s.k.procTable q) (k'.procTable q) := by
      intro q hq
      rw [htable]
      exact sameIpc_deliver _ hq
    have hzero : (k'.procTable d).pFlags = 0 := by
      rw [htable]
      exact deliver_flags hflags
    have htask' : (k'.procTable TASK_MM).pFlags = 0 := (hipc _ hdm.symm).flags.trans htask
    have hnot : ¬ Sending (k'.procTable TASK_MM) := not_sending_of_flags_zero htask'
    have hothers : ∀ q, q ≠ d → q ≠ TASK_MM → Untouched s (s.afterSend s.k k' pc') q :=
      fun q hq _ => ⟨hipc q hq, rfl, rfl, rfl⟩
    have hevent : mmDelivered s.k k' = [⟨TASK_MM, d, fromTask (readMessage k₁.mem b)⟩] :=
      he'.event htask hk₁ hacc (hs.sole.linear_task b) (by rw [hbuf]; exact hapart)
    refine h.oneSlot (x := d) hs (fun q hq => ⟨hipc q hq, rfl, rfl, rfl⟩) ?_
      (fun _ => not_sending_of_flags_zero hzero) hlin hkept (hserves hothers)
      (fun hts => absurd hts hnot) ?_ ?_
    · change (k'.procTable d).pFlags &&& _ = 0 ∧ (k'.procTable d).pFlags &&& _ = 0
      rw [hzero]
      decide
    · rw [hdone hnot, List.append_nil]
      change reports (s.results ++ s.waitResults k' (mmDelivered s.k k')) = _
      rw [reports_append, hevent, hreport hzero]
      exact h.results
    · rw [hfreed]
      exact h.freed
  | queued hacc tail htail htable hmem =>
    rw [hk₁] at hacc htable
    have hipc : ∀ q, q ≠ TASK_MM → SameIpc (s.k.procTable q) (k'.procTable q) := by
      intro q hq
      rw [htable]
      exact sameIpc_enqueue _ b tail hq
    have hself : (k'.procTable TASK_MM).pFlags = SENDING ∧ (k'.procTable TASK_MM).msg = b ∧
        (k'.procTable TASK_MM).pSendto = proc2pid d := by
      rw [htable]
      simp [enqueue, htask]
    have hsending : Sending (k'.procTable TASK_MM) := by
      rw [Sending, hself.1]
      decide
    have hothers : ∀ q, q ≠ TASK_MM → Untouched s (s.afterSend s.k k' pc') q :=
      fun q hq => ⟨hipc q hq, rfl, rfl, rfl⟩
    have hnone : mmDelivered s.k k' = [] := by
      rcases hdel with ⟨hyes, _⟩ | ⟨_, hdel⟩
      · exact absurd hyes hacc
      · exact hdel
    have hread : readMessage k'.mem b = fromTask (readMessage k₁.mem b) := by
      have hstamp := stampSource_message k₁ TASK_MM b
      rw [hlinTask] at hstamp
      rw [hmem]
      exact hstamp
    refine h.oneSlot (x := TASK_MM) hs hothers ?_ (fun hne => absurd rfl hne) hlin hkept
      (hserves fun q _ hqm => hothers q hqm) (fun _ => ⟨d, hdm, hself.2.2, ?_⟩) ?_ ?_
    · change (k'.procTable TASK_MM).pFlags &&& _ = 0 ∧ (k'.procTable TASK_MM).pFlags &&& _ = 0
      rw [hself.1]
      decide
    · exact herrand (hothers d hdm) (hd.due hacc) hself.2.1 hfamily hread
    · rw [hblocked hsending hfamily]
      change reports (s.results ++ s.waitResults k' (mmDelivered s.k k')) ++ _ = _
      rw [hnone]
      change reports (s.results ++ []) ++ _ = _
      rw [List.append_nil]
      exact h.results
    · rw [hfreed]
      exact h.freed

/-- `task_mm` calls its receive. -/
theorem Ledger.receive (h : Ledger img s) (hs : Handshake img s) (hpc : s.pc = .receive)
    (htask : (s.k.procTable TASK_MM).pFlags = 0)
    (hout : ∀ p, p ≠ TASK_MM → s.InCall p →
      ∀ a, InMessage (linear s.k.procTable p (s.buf p)) a → ¬ InTask img a)
    (hkept : ∀ a, InBlockedBuffer s.k.procTable a → k'.mem a = s.k.mem a)
    (he : ReceiveEffect (clearMmMsg img s.k) TASK_MM ANY img.mmMsg k') :
    Ledger img { s with k := k', pc := .dispatch } := by
  have hmm : ¬ Sending (s.k.procTable TASK_MM) := not_sending_of_flags_zero htask
  have hlin : ∀ p va, linear k'.procTable p va = linear s.k.procTable p va := he.linear_eq
  have hresults : s.reported = s.exits.map ExitRecord.report := by
    have hold := h.results
    rw [MmWorld.unreported, hpc, List.append_nil] at hold
    exact hold
  have hfreed : s.freed = s.exits.map fun e => (e.child, FREE_SLOT) := by
    have hold := h.freed
    rw [MmWorld.unfreed, hpc, List.append_nil] at hold
    exact hold
  cases he with
  | taken f prev hsrc hfound hprev htable hmem =>
    have htable' : k'.procTable = dequeue s.k.procTable TASK_MM f prev := htable
    have hne : f ≠ TASK_MM := by
      intro hf
      rw [hf] at hfound
      exact hmm hfound.sendsTo.1
    have hfs : Sending (s.k.procTable f) := hfound.sendsTo.1
    obtain ⟨hfpos, hfmsg, _⟩ := hs.asking f hne hfs
    obtain ⟨hfbuf, hfrequest⟩ := h.asked f hne hfs
    have hipc : ∀ q, q ≠ f → SameIpc (s.k.procTable q) (k'.procTable q) := by
      intro q hq
      rw [htable']
      exact sameIpc_dequeue _ prev hq
    have hzero : (k'.procTable f).pFlags = 0 := by
      have hflags : (s.k.procTable f).pFlags = SENDING := hfound.fromFlags
      rw [htable']
      exact dequeue_flags TASK_MM prev hflags
    have hnot : ¬ Sending (k'.procTable TASK_MM) := by
      rw [(hipc _ hne.symm).sending]
      exact hmm
    have hothers : ∀ q, q ≠ f → Untouched s { s with k := k', pc := .dispatch } q :=
      fun q hq => ⟨hipc q hq, rfl, rfl, rfl⟩
    -- the request of `f` is in `mm_msg` now
    have hread : readMessage k'.mem img.mmMsg = s.request f := by
      have hmsg : ((clearMmMsg img s.k).procTable f).msg = s.buf f := hfmsg
      rw [hmsg] at hmem
      rw [← hfrequest]
      refine readMessage_taken (hs.sole.linear_task _) (fun a ha hc => ?_) hmem
      exact hout f hne (.inl hfpos) a ha (.inl hc)
    have hsource : (readMessage k'.mem img.mmMsg).source = BitVec.ofInt 32 (proc2pid f) := by
      rw [hread, ← hfrequest]
      exact (hs.asking f hne hfs).2.2
    refine h.oneSlot (x := f) hs hothers ?_ (fun _ => not_sending_of_flags_zero hzero) hlin hkept
      (fun _ => ⟨f, ?_, ?_, hread⟩) (fun hts => absurd hts hnot) ?_ ?_
    · dsimp only
      rw [hzero]
      decide
    · exact mmSource_of_message hsource
    · exact ⟨hne, hfbuf, .inl ⟨hzero, hfpos⟩⟩
    · exact (List.append_nil _).trans hresults
    · exact (List.append_nil _).trans hfreed
  | parked hsrc htable hmem =>
    have htable' : k'.procTable = park s.k.procTable TASK_MM ANY img.mmMsg := htable
    have hipc : ∀ q, q ≠ TASK_MM → SameIpc (s.k.procTable q) (k'.procTable q) := by
      intro q hq
      rw [htable']
      exact sameIpc_park _ _ _ hq
    have hself : (k'.procTable TASK_MM).pFlags = RECEIVING := by
      rw [htable']
      exact park_flags ANY img.mmMsg htask
    refine h.oneSlot (x := TASK_MM) hs (fun q hq => ⟨hipc q hq, rfl, rfl, rfl⟩) ?_
      (fun hne => absurd rfl hne) hlin hkept (fun hr => ?_) (fun hts => ?_) ?_ ?_
    · dsimp only
      rw [hself]
      decide
    · dsimp only at hr
      rw [hself] at hr
      exact absurd hr (by decide)
    · dsimp only at hts
      rw [Sending, hself] at hts
      exact absurd (by decide) hts
    · exact (List.append_nil _).trans hresults
    · exact (List.append_nil _).trans hfreed

/-- The books after a step of `task_mm` that sends and receives nothing. -/
theorem Ledger.book (h : Ledger img s) (hs : Handshake img s)
    (htask : ¬ Sending (s'.k.procTable TASK_MM))
    (hsender : ∀ x, x ≠ TASK_MM → Sending (s'.k.procTable x) → Sending (s.k.procTable x) ∧
      (s'.k.procTable x).ldtData = (s.k.procTable x).ldtData ∧ s'.buf x = s.buf x ∧
      s'.request x = s.request x)
    (hkept : ∀ a, InBlockedBuffer s.k.procTable a → s'.k.mem a = s.k.mem a)
    (hhanging : ∀ p, (s'.k.procTable p).pFlags &&& HANGING = 0)
    (hasleep : ∀ q, (s'.k.procTable q).pFlags &&& WAITING ≠ 0 → s'.Waits WAITING q)
    (hserves : Serves img s')
    (hresults : s'.reported ++ s'.unreported = s'.exits.map ExitRecord.report)
    (hfreed : s'.freed ++ s'.unfreed = s'.exits.map fun e => (e.child, FREE_SLOT)) :
    Ledger img s' := by
  refine ⟨hhanging, fun x hx hxs => ?_, hasleep, hserves, fun hts => absurd hts htask, hresults,
    hfreed⟩
  obtain ⟨hxs', hldt, hbuf, hrequest⟩ := hsender x hx hxs
  rw [hbuf, hrequest, linear, hldt]
  exact ⟨(h.asked x hx hxs').1, h.asked_kept hs hx hxs' hkept⟩

/-! ### The requests -/

theorem Holds.type (h : Holds img s c) : (s.request c).type = mmType img s.k :=
  (congrArg Message.type h.message).symm

theorem Holds.status (h : Holds img s c) : (s.request c).status = mmStatus img s.k :=
  (congrArg Message.status h.message).symm

/-- The process in hand is neither in a send nor asleep, and its slot is in use. -/
theorem MmWorld.Engaged.idle (h : s.Engaged 0 c) :
    ¬ Sending (s.k.procTable c) ∧ (s.k.procTable c).pFlags &&& WAITING = 0 ∧
      (s.k.procTable c).pFlags ≠ FREE_SLOT := by
  rcases h.slot with ⟨hflags, _⟩ | ⟨hflags, _⟩
  · rw [Sending, hflags]
    decide
  · rw [Sending, hflags]
    decide

theorem SameIpc.refl (p : Process) : SameIpc p p := ⟨rfl, rfl, rfl, rfl⟩

/-- A FORK for which there is no slot. -/
theorem Ledger.forkNone (h : Ledger img s) (hs : Handshake img s) (hc : Holds img s c)
    (hpc : s.pc = .dispatch) (htask : (s.k.procTable TASK_MM).pFlags = 0)
    (htype : mmType img s.k = FORK) {retval : BitVec 32} :
    Ledger img (s.afterDispatch img s.k s.k (.reply (proc2pid c) retval)) := by
  have hun : ∀ q, Untouched s { s with pc := .reply (proc2pid c) retval } q :=
    fun q => ⟨.refl _, rfl, rfl, rfl⟩
  have hresults := h.results
  have hfreed := h.freed
  rw [MmWorld.unreported, hpc] at hresults
  rw [MmWorld.unfreed, hpc] at hfreed
  rw [MmWorld.afterDispatch_noSlot htype]
  refine h.book hs (not_sending_of_flags_zero htask) (fun x _ hxs => ⟨hxs, rfl, rfl, rfl⟩)
    (fun _ _ => rfl) h.hanging (fun q hq => (h.asleep q hq).untouched (hun q))
    ⟨c, rfl, hc.engaged.untouched (hun c), ?_⟩ hresults hfreed
  dsimp only
  rw [hc.type, htype]
  decide

/-- `do_fork` has filled the slot of the child. -/
theorem Ledger.forked (h : Ledger img s) (hs : Handshake img s) (hc : Holds img s c)
    (hpc : s.pc = .dispatch) (htask : (s.k.procTable TASK_MM).pFlags = 0) {child : Pid}
    (hchild : child ≠ TASK_MM) (hfree : (s.k.procTable child).pFlags = FREE_SLOT)
    (htype : mmType img s.k = FORK) (htable : k'.procTable = forkTable s.k.procTable c child)
    (hkept : ∀ a, InBlockedBuffer s.k.procTable a → k'.mem a = s.k.mem a) :
    Ledger img (s.afterDispatch img s.k k' (.forkSend (proc2pid c) child)) := by
  obtain ⟨hidle, hawake, hused⟩ := hc.engaged.idle
  have hne : c ≠ child := by
    intro hne
    rw [hne] at hused
    exact hused hfree
  have hself : k'.procTable child = forkSlot s.k.procTable c child := by
    rw [htable, forkTable_self]
  have hother : ∀ x, x ≠ child → k'.procTable x = s.k.procTable x := by
    intro x hx
    rw [htable, forkTable_of_ne _ _ hx]
  have hnotWait : (s.request c).type ≠ WAIT := by
    rw [hc.type, htype]
    decide
  have hresults := h.results
  have hfreed := h.freed
  rw [MmWorld.unreported, hpc] at hresults
  rw [MmWorld.unfreed, hpc] at hfreed
  rw [MmWorld.afterDispatch_fork hc.source htype]
  set s' : MmWorld :=
    { s with
      k := k'
      pc := .forkSend (proc2pid c) child
      pos := Function.update s.pos child (s.pos c)
      buf := Function.update s.buf child (s.buf c)
      request := Function.update s.request child (s.request c) } with hs'
  have hun : ∀ q, q ≠ child → Untouched s s' q := by
    intro q hq
    refine ⟨?_, Function.update_of_ne hq _ _, Function.update_of_ne hq _ _,
      Function.update_of_ne hq _ _⟩
    change SameIpc _ (k'.procTable q)
    rw [hother q hq]
    exact .refl _
  have hborn : s'.pos child = s.pos c ∧ s'.buf child = s.buf c ∧ s'.request child = s.request c :=
    ⟨Function.update_self .., Function.update_self .., Function.update_self ..⟩
  refine h.book hs ?_ (fun x hx hxs => ?_) hkept (fun p => ?_) (fun q hq => ?_)
    ⟨⟨⟨hchild, ?_, ?_⟩, ?_⟩, c, rfl, hne, hc.engaged.untouched (hun c hne), ?_⟩ hresults hfreed
  · change ¬ Sending (k'.procTable TASK_MM)
    rw [hother _ hchild.symm]
    exact not_sending_of_flags_zero htask
  · change Sending (k'.procTable x) at hxs
    have hxc : x ≠ child := by
      intro hxc
      rw [hxc, hself] at hxs
      exact hidle hxs
    rw [hother x hxc] at hxs
    refine ⟨hxs, ?_, (hun x hxc).buf, (hun x hxc).request⟩
    change (k'.procTable x).ldtData = _
    rw [hother x hxc]
  · change (k'.procTable p).pFlags &&& HANGING = 0
    by_cases hpc' : p = child
    · rw [hpc', hself]
      exact h.hanging c
    · rw [hother p hpc']
      exact h.hanging p
  · change (k'.procTable q).pFlags &&& WAITING ≠ 0 at hq
    have hqc : q ≠ child := by
      intro hqc
      rw [hqc, hself] at hq
      exact hq hawake
    rw [hother q hqc] at hq
    exact (h.asleep q hq).untouched (hun q hqc)
  · rw [hborn.2.1]
    exact hc.engaged.buf
  · change ((k'.procTable child).pFlags = _ ∧ _) ∨ ((k'.procTable child).pFlags = _ ∧
      (k'.procTable child).msg = _ ∧ (k'.procTable child).pRecvfrom = _)
    rw [hself, hborn.1, hborn.2.1]
    exact hc.engaged.slot
  · rw [hborn.2.2]
    exact hnotWait
  · rw [(hun c hne).request]
    exact hnotWait

/-- `do_exit` has found the parent waiting. -/
theorem Ledger.exited (h : Ledger img s) (hs : Handshake img s) (hc : Holds img s c)
    (hpc : s.pc = .dispatch) (htask : (s.k.procTable TASK_MM).pFlags = 0) {parent : Pid}
    (htype : mmType img s.k = EXIT) (hparent : (s.k.procTable c).pParent = proc2pid parent)
    (hwait : (s.k.procTable parent).pFlags &&& WAITING ≠ 0) :
    Ledger img (s.afterDispatch img s.k
      { s.k with procTable := exitWaited s.k.procTable c parent (mmStatus img s.k) }
      (.cleanupSend c (.exit (proc2pid c)))) := by
  set k' : Machine :=
    { s.k with procTable := exitWaited s.k.procTable c parent (mmStatus img s.k) } with hk'
  set s' : MmWorld :=
    { s with
      k := k'
      pc := .cleanupSend c (.exit (proc2pid c))
      exits := s.exits ++ [⟨(s.k.procTable c).pParent, c, (s.request c).status⟩] } with hs'
  have heq : s.afterDispatch img s.k k' (.cleanupSend c (.exit (proc2pid c))) = s' :=
    MmWorld.afterDispatch_exit hc.source htype
  have hasleep := h.asleep parent hwait
  have hself : (k'.procTable parent).pFlags = (s.k.procTable parent).pFlags &&& ~~~WAITING :=
    if_pos rfl
  have hother : ∀ q, q ≠ parent → (k'.procTable q).pFlags = (s.k.procTable q).pFlags :=
    fun q hq => if_neg hq
  have hun : ∀ q, q ≠ parent → Untouched s s' q :=
    fun q hq => ⟨⟨hother q hq, rfl, rfl, rfl⟩, rfl, rfl, rfl⟩
  have hreport : s'.report c =
      ExitRecord.report ⟨(s.k.procTable c).pParent, c, (s.request c).status⟩ := by
    have hstatus : (k'.procTable c).exitStatus = mmStatus img s.k := if_pos rfl
    unfold MmWorld.report ExitRecord.report
    dsimp only
    rw [hstatus, hc.status]
    rfl
  have hresults := h.results
  have hfreed := h.freed
  rw [MmWorld.unreported, hpc, List.append_nil] at hresults
  rw [MmWorld.unfreed, hpc, List.append_nil] at hfreed
  rw [heq]
  refine h.book hs ?_ (fun x _ hxs => ⟨?_, rfl, rfl, rfl⟩) (fun _ _ => rfl) (fun p => ?_)
    (fun q hq => ?_) ⟨rfl, parent, hparent, ?_, hasleep.type⟩ ?_ ?_
  · change ¬ Sending (k'.procTable TASK_MM)
    rw [Sending, hother _ hasleep.engaged.ne.symm, htask]
    decide
  · exact ((sameQueues_exitWaited s.k.procTable c parent _).sending x).mp hxs
  · change (k'.procTable p).pFlags &&& HANGING = 0
    by_cases hpp : p = parent
    · rw [hpp, hself]
      exact clear_flag (h.hanging parent)
    · rw [hother p hpp]
      exact h.hanging p
  · change (k'.procTable q).pFlags &&& WAITING ≠ 0 at hq
    have hqp : q ≠ parent := by
      intro hqp
      rw [hqp, hself] at hq
      exact hq (flag_cleared _ WAITING)
    rw [hother q hqp] at hq
    exact (h.asleep q hq).untouched (hun q hqp)
  · exact hasleep.engaged.reflag (· &&& ~~~WAITING) (by decide) (by decide) hself rfl rfl rfl rfl
  · change s.reported ++ [s'.report c] = _
    rw [hreport, hresults]
    simp [hs']
  · change s.freed ++ [(c, FREE_SLOT)] = _
    rw [hfreed]
    simp [hs']

/-- `do_wait` has put the caller to sleep. -/
theorem Ledger.slept (h : Ledger img s) (hs : Handshake img s) (hc : Holds img s c)
    (hpc : s.pc = .dispatch) (htask : (s.k.procTable TASK_MM).pFlags = 0)
    (htype : mmType img s.k = WAIT) :
    Ledger img (s.afterDispatch img s.k
      { s.k with procTable := setWaiting s.k.procTable c } .receive) := by
  set k' : Machine := { s.k with procTable := setWaiting s.k.procTable c } with hk'
  set s' : MmWorld := { s with k := k', pc := .receive } with hs'
  have heq : s.afterDispatch img s.k k' .receive = s' := MmWorld.afterDispatch_wait htype
  have hself : (k'.procTable c).pFlags = (s.k.procTable c).pFlags ||| WAITING := if_pos rfl
  have hother : ∀ q, q ≠ c → (k'.procTable q).pFlags = (s.k.procTable q).pFlags :=
    fun q hq => if_neg hq
  have hun : ∀ q, q ≠ c → Untouched s s' q :=
    fun q hq => ⟨⟨hother q hq, rfl, rfl, rfl⟩, rfl, rfl, rfl⟩
  have hresults := h.results
  have hfreed := h.freed
  rw [MmWorld.unreported, hpc] at hresults
  rw [MmWorld.unfreed, hpc] at hfreed
  rw [heq]
  refine h.book hs ?_ (fun x _ hxs => ⟨?_, rfl, rfl, rfl⟩) (fun _ _ => rfl) (fun p => ?_)
    (fun q hq => ?_) trivial hresults hfreed
  · change ¬ Sending (k'.procTable TASK_MM)
    rw [Sending, hother _ hc.engaged.ne.symm, htask]
    decide
  · exact ((sameQueues_setWaiting s.k.procTable c).sending x).mp hxs
  · change (k'.procTable p).pFlags &&& HANGING = 0
    by_cases hpc' : p = c
    · rw [hpc', hself]
      rcases hc.engaged.slot with ⟨hflags, _⟩ | ⟨hflags, _⟩
      · rw [hflags]
        decide
      · rw [hflags]
        decide
    · rw [hother p hpc']
      exact h.hanging p
  · change (k'.procTable q).pFlags &&& WAITING ≠ 0 at hq
    by_cases hqc : q = c
    · subst hqc
      exact ⟨hc.engaged.reflag (· ||| WAITING) (by decide) (by decide) hself rfl rfl rfl rfl,
        hc.type.trans htype⟩
    · rw [hother q hqc] at hq
      exact (h.asleep q hq).untouched (hun q hqc)

/-- `do_wait` has found no child. -/
theorem Ledger.childless (h : Ledger img s) (hs : Handshake img s) (hc : Holds img s c)
    (hpc : s.pc = .dispatch) (htask : (s.k.procTable TASK_MM).pFlags = 0)
    (htype : mmType img s.k = WAIT) :
    Ledger img (s.afterDispatch img s.k s.k (.waitNone (proc2pid c))) := by
  have hun : ∀ q, Untouched s { s with pc := .waitNone (proc2pid c) } q :=
    fun q => ⟨.refl _, rfl, rfl, rfl⟩
  have hresults := h.results
  have hfreed := h.freed
  rw [MmWorld.unreported, hpc] at hresults
  rw [MmWorld.unfreed, hpc] at hfreed
  rw [MmWorld.afterDispatch_wait htype]
  exact h.book hs (not_sending_of_flags_zero htask) (fun x _ hxs => ⟨hxs, rfl, rfl, rfl⟩)
    (fun _ _ => rfl) h.hanging (fun q hq => (h.asleep q hq).untouched (hun q))
    ⟨c, rfl, hc.engaged.untouched (hun c), hc.type.trans htype⟩ hresults hfreed

/-- `do_execl` has set the entry point of a caller that is blocked in its
    receive. -/
theorem Ledger.executed (h : Ledger img s) (hs : Handshake img s) (hc : Holds img s c)
    (hpc : s.pc = .dispatch) (htask : (s.k.procTable TASK_MM).pFlags = 0)
    (hacc : Accepts s.k.procTable c TASK_MM) (htype : mmType img s.k = EXEC)
    {entry eax : BitVec 32} (htable : k'.procTable = setEip s.k.procTable c entry)
    (hkept : ∀ a, InBlockedBuffer s.k.procTable a → k'.mem a = s.k.mem a) :
    Ledger img (s.afterDispatch img s.k k' (.reply (proc2pid c) eax)) := by
  set s' : MmWorld :=
    { s with
      k := k'
      pc := .reply (proc2pid c) eax
      pos := Function.update s.pos c .entry
      execs := s.execs ++ [c] } with hs'
  have heq : s.afterDispatch img s.k k' (.reply (proc2pid c) eax) = s' :=
    MmWorld.afterDispatch_exec hc.source htype
  have hipc : ∀ q, SameIpc (s.k.procTable q) (k'.procTable q) := by
    intro q
    rw [htable]
    exact ⟨rfl, rfl, rfl, rfl⟩
  have hresults := h.results
  have hfreed := h.freed
  rw [MmWorld.unreported, hpc] at hresults
  rw [MmWorld.unfreed, hpc] at hfreed
  rw [heq]
  refine h.book hs ?_ (fun x _ hxs => ⟨(hipc x).sending.mp hxs, ?_, rfl, rfl⟩) hkept
    (fun p => ?_) (fun q hq => ?_) ⟨c, rfl, ⟨hc.engaged.ne, hc.engaged.buf, .inr ?_⟩, ?_⟩
    hresults hfreed
  · change ¬ Sending (k'.procTable TASK_MM)
    rw [(hipc TASK_MM).sending]
    exact not_sending_of_flags_zero htask
  · change (k'.procTable x).ldtData = _
    rw [htable]
    rfl
  · change (k'.procTable p).pFlags &&& HANGING = 0
    rw [(hipc p).flags]
    exact h.hanging p
  · change (k'.procTable q).pFlags &&& WAITING ≠ 0 at hq
    rw [(hipc q).flags] at hq
    have hqc : q ≠ c := by
      intro hqc
      rw [hqc] at hq
      exact hq hc.engaged.idle.2.1
    exact (h.asleep q hq).untouched ⟨hipc q, Function.update_of_ne hqc _ _, rfl, rfl⟩
  · change (k'.procTable c).pFlags = _ ∧ (k'.procTable c).msg = _ ∧
      (k'.procTable c).pRecvfrom = _
    rw [(hipc c).flags, (hipc c).msg, (hipc c).recvfrom]
    exact hc.engaged.parked hacc
  · change (s.request c).type ≠ WAIT
    rw [hc.type, htype]
    decide

/-- A request in hand is handled. -/
theorem Ledger.dispatch (h : Ledger img s) (hs : Handshake img s) (hpc : s.pc = .dispatch)
    (htask : (s.k.procTable TASK_MM).pFlags = 0) (hparked : ExecParked img s s.k)
    (hwaits : ParentWaits img s s.k)
    (hkept : ∀ a, InBlockedBuffer s.k.procTable a → k'.mem a = s.k.mem a) {pc' : MmPc}
    (hout : MmOutcome img s.k .dispatch k' pc') :
    Ledger img (s.afterDispatch img s.k k' pc') := by
  obtain ⟨c, hc⟩ : ∃ c, Holds img s c := by
    have hserves := h.serves
    unfold Serves at hserves
    rw [hpc] at hserves
    apply hserves
    rw [htask]
    decide
  have hsrc : ∀ {p : Pid}, mmSource img s.k = proc2pid p → p = c :=
    fun hp => proc2pid_inj.mp (hp.symm.trans hc.source)
  cases hout with
  | forkNone htype _ =>
    rw [hc.source]
    exact h.forkNone hs hc hpc htask htype
  | fork pid child used htype hpid hfree hchild =>
    obtain rfl := hsrc hpid
    refine h.forked hs hc hpc htask ?_ (findFreeSlot_free hfree) htype rfl hkept
    intro hx
    rw [hx] at hchild
    exact absurd hchild (by decide)
  | exitWaited pid parent htype hpid hparent hwait =>
    obtain rfl := hsrc hpid
    exact h.exited hs hc hpc htask htype hparent hwait
  | exitHanging pid parent htype hpid hparent hwait =>
    exact absurd (hwaits hpc htype pid parent hpid hparent) hwait
  | waitHanging child htype hchild =>
    have hfind := List.find?_some hchild
    simp only [decide_eq_true_eq] at hfind
    exact absurd (h.hanging child) hfind.2
  | waitChildren pid htype hpid _ _ =>
    obtain rfl := hsrc hpid
    exact h.slept hs hc hpc htask htype
  | waitChildless htype _ =>
    rw [hc.source]
    exact h.childless hs hc hpc htask htype
  | exec pid mem used entry eax htype hpid =>
    obtain rfl := hsrc hpid
    exact h.executed hs hc hpc htask (hparked hpc htype pid hpid) htype rfl hkept

/-! ### The rest of `do_exit` -/

/-- `cleanup` has freed the slot of the child. -/
theorem Ledger.cleaned (h : Ledger img s) (hs : Handshake img s) {proc : Pid} {ret : Resume}
    (hpc : s.pc = .cleanupFree proc ret) (htask : (s.k.procTable TASK_MM).pFlags = 0) :
    Ledger img
      { s with
        k := { s.k with procTable := freeSlot s.k.procTable proc }
        pc := resumeAt ret
        freed := s.freed ++ [(proc, (freeSlot s.k.procTable proc proc).pFlags)] } := by
  obtain rfl : ret = .exit (proc2pid proc) := by
    have hserves := h.serves
    unfold Serves at hserves
    rw [hpc] at hserves
    exact hserves
  have hself : (freeSlot s.k.procTable proc proc).pFlags = FREE_SLOT := if_pos rfl
  have hother : ∀ q, q ≠ proc →
      (freeSlot s.k.procTable proc q).pFlags = (s.k.procTable q).pFlags := fun q hq => if_neg hq
  have hmm : ¬ Sending (s.k.procTable TASK_MM) := not_sending_of_flags_zero htask
  have hback : ∀ x, Sending (freeSlot s.k.procTable proc x) → Sending (s.k.procTable x) := by
    intro x hxs
    by_cases hx : x = proc
    · rw [hx, Sending, hself] at hxs
      exact absurd (by decide) hxs
    · rw [Sending, hother x hx] at hxs
      exact hxs
  have hresults := h.results
  have hfreed := h.freed
  rw [MmWorld.unreported, hpc] at hresults
  dsimp only at hresults
  rw [if_neg hmm] at hresults
  rw [MmWorld.unfreed, hpc] at hfreed
  rw [hself]
  refine h.book hs (fun hts => hmm (hback _ hts)) (fun x _ hxs => ⟨hback x hxs, rfl, rfl, rfl⟩)
    (fun _ _ => rfl) (fun p => ?_) (fun q hq => ?_) trivial hresults
    ((List.append_nil _).trans hfreed)
  · dsimp only
    by_cases hp : p = proc
    · rw [hp, hself]
      decide
    · rw [hother p hp]
      exact h.hanging p
  · dsimp only at hq
    have hqp : q ≠ proc := by
      intro hqp
      rw [hqp, hself] at hq
      exact hq (by decide)
    rw [hother q hqp] at hq
    exact (h.asleep q hq).untouched ⟨⟨hother q hqp, rfl, rfl, rfl⟩, rfl, rfl, rfl⟩

/-- The loop of `do_exit` finds nobody. -/
theorem Ledger.scanned (h : Ledger img s) (hs : Handshake img s) {pid : ℤ} {i : ℕ}
    (hpc : s.pc = .exitScan pid i) (htask : (s.k.procTable TASK_MM).pFlags = 0) {pc' : MmPc}
    (hout : MmOutcome img s.k (.exitScan pid i) k' pc') :
    Ledger img { s with k := k', pc := pc' } := by
  cases hout with
  | scanFound _ _ j hfind =>
    have hj := List.find?_some hfind
    simp only [decide_eq_true_eq] at hj
    exact absurd (h.hanging j) hj.2.2.2
  | scanDone _ _ _ =>
    have hresults := h.results
    have hfreed := h.freed
    rw [MmWorld.unreported, hpc] at hresults
    rw [MmWorld.unfreed, hpc] at hfreed
    exact h.book hs (not_sending_of_flags_zero htask) (fun x _ hxs => ⟨hxs, rfl, rfl, rfl⟩)
      (fun _ _ => rfl) h.hanging
      (fun q hq => (h.asleep q hq).untouched ⟨.refl _, rfl, rfl, rfl⟩) trivial hresults hfreed

/-! ### The sends -/

theorem MmWorld.Engaged.inCall (h : s.Engaged 0 c) : s.InCall c := by
  rcases h.slot with ⟨_, hpos⟩ | ⟨hflags, _⟩
  · exact .inl hpos
  · refine .inr ?_
    rw [hflags]
    decide

theorem cleanupMessage_pid (img : MmImage) (k : Machine) (proc : Pid) :
    (readMessage (cleanupMessage img k proc).mem img.cleanupMsg).pid =
      BitVec.ofInt 32 (proc2pid proc) := by
  change readWord _ (img.cleanupMsg + 12) = _
  unfold cleanupMessage
  rw [readWord_writeWord_ne (apart_offsets _ _ _ (by decide)), readWord_writeWord]

theorem cleanupMessage_status (img : MmImage) (k : Machine) (proc : Pid) :
    (readMessage (cleanupMessage img k proc).mem img.cleanupMsg).status =
      (k.procTable proc).exitStatus := by
  change readWord _ (img.cleanupMsg + 8) = _
  unfold cleanupMessage
  rw [readWord_writeWord]

theorem waitMessage_pid (img : MmImage) (k : Machine) :
    (readMessage (waitMessage img k).mem img.waitMsg).pid = BitVec.ofInt 32 NO_TASK := by
  change readWord _ (img.waitMsg + 12) = _
  unfold waitMessage
  rw [readWord_writeWord]

/-- Outside `cleanup` nothing is owed. -/
theorem MmWorld.unreported_none (h : s.pc.cleaning = none) :
    s.unreported = [] ∧ s.unfreed = [] := by
  unfold MmWorld.unreported MmWorld.unfreed
  cases hpc : s.pc with
  | cleanupSend proc ret =>
    rw [hpc] at h
    cases h
  | cleanupFree proc ret =>
    rw [hpc] at h
    cases h
  | _ => exact ⟨rfl, rfl⟩

/-- The answer to a FORK or an EXEC goes out. -/
theorem Ledger.answered (h : Ledger img s) (hs : Handshake img s) (k₁ : Machine)
    (htask : (s.k.procTable TASK_MM).pFlags = 0) (hk₁ : k₁.procTable = s.k.procTable)
    (he : SendEffect k₁ TASK_MM d b k') (hd : s.Asks d)
    (hapart : Separate (linear s.k.procTable d (s.buf d)) b)
    (hkept : ∀ a, InBlockedBuffer s.k.procTable a → k'.mem a = s.k.mem a) {pc' : MmPc}
    (hpc' : pc' = .receive ∨ ∃ c r, pc' = .reply (proc2pid c) r ∧ c ≠ d ∧ s.Asks c)
    (hnone : s.unreported = [] ∧ s.unfreed = []) : Ledger img (s.afterSend s.k k' pc') := by
  have hbooks : (s.afterSend s.k k' pc').unreported = [] ∧
      (s.afterSend s.k k' pc').unfreed = [] := by
    rcases hpc' with rfl | ⟨_, _, rfl, _⟩
    · exact ⟨rfl, rfl⟩
    · exact ⟨rfl, rfl⟩
  refine h.send hs k₁ htask hk₁ he rfl hd.engaged hapart hkept (fun hun => ?_)
    (fun hun _ _ _ _ => ?_) (fun _ => ?_) (fun _ => hbooks.1)
    (fun _ _ => hbooks.1.trans hnone.1.symm)
    (hbooks.2.trans hnone.2.symm)
  · rcases hpc' with rfl | ⟨c, r, rfl, hne, hc⟩
    · trivial
    · exact ⟨c, rfl, hc.keeps (hun c hne hc.engaged.ne).keeps⟩
  · refine .answer (hd.keeps hun.keeps) ?_
    rcases hpc' with rfl | ⟨c, r, rfl, hne, _⟩
    · exact .inl rfl
    · exact .inr ⟨c, r, rfl, hne⟩
  · rw [MmWorld.waitResults_of_ne hd.type, hnone.1]
    rfl

/-- The answer to a process without children goes out. -/
theorem Ledger.refused (h : Ledger img s) (hs : Handshake img s)
    (hpc : s.pc = .waitNone (proc2pid d)) (htask : (s.k.procTable TASK_MM).pFlags = 0)
    (he : SendEffect (waitMessage img s.k) TASK_MM d img.waitMsg k') (hd : s.Waits 0 d)
    (hapart : Separate (linear s.k.procTable d (s.buf d)) img.waitMsg)
    (hkept : ∀ a, InBlockedBuffer s.k.procTable a → k'.mem a = s.k.mem a) :
    Ledger img (s.afterSend s.k k' .receive) := by
  have hnone : s.unreported = [] ∧ s.unfreed = [] := MmWorld.unreported_none (by rw [hpc]; rfl)
  have hpid : (fromTask (readMessage (waitMessage img s.k).mem img.waitMsg)).pid =
      BitVec.ofInt 32 NO_TASK := waitMessage_pid img s.k
  refine h.send hs (waitMessage img s.k) htask rfl he rfl hd.engaged hapart hkept (fun _ => trivial)
    (fun _ _ hmsg _ hread => .noTask rfl hmsg ?_) (fun _ => ?_) (fun _ => rfl)
    (fun _ _ => hnone.1.symm) hnone.2.symm
  · rw [hread]
    exact hpid
  · rw [MmWorld.reports_waitResults_noTask hpid, hnone.1]

/-- The report of `cleanup` goes out. -/
theorem Ledger.reportSent (h : Ledger img s) (hs : Handshake img s) {proc : Pid} {ret : Resume}
    (hpc : s.pc = .cleanupSend proc ret) (hret : ret = .exit (proc2pid proc))
    (htask : (s.k.procTable TASK_MM).pFlags = 0)
    (he : SendEffect (cleanupMessage img s.k proc) TASK_MM d img.cleanupMsg k') (hd : s.Waits 0 d)
    (hparent : (s.k.procTable proc).pParent = proc2pid d)
    (hapart : Separate (linear s.k.procTable d (s.buf d)) img.cleanupMsg)
    (hkept : ∀ a, InBlockedBuffer s.k.procTable a → k'.mem a = s.k.mem a) :
    Ledger img (s.afterSend s.k k' (.cleanupFree proc ret)) := by
  have hold : s.unreported = [s.report proc] ∧ s.unfreed = [(proc, FREE_SLOT)] := by
    rw [MmWorld.unreported, MmWorld.unfreed, hpc]
    exact ⟨rfl, rfl⟩
  have hpid : (fromTask (readMessage (cleanupMessage img s.k proc).mem img.cleanupMsg)).pid =
      BitVec.ofInt 32 (proc2pid proc) := cleanupMessage_pid img s.k proc
  have hstatus : (fromTask (readMessage (cleanupMessage img s.k proc).mem img.cleanupMsg)).status =
      (s.k.procTable proc).exitStatus := cleanupMessage_status img s.k proc
  refine h.send hs (cleanupMessage img s.k proc) htask rfl he rfl hd.engaged hapart hkept
    (fun _ => hret) (fun hun hready hmsg hfamily hread => .report proc ret rfl (hd.keeps hun.keeps)
      (hun.ipc.flags.trans hready) ((hfamily proc).1.trans hparent) hmsg ?_ ?_)
    (fun hzero => ?_) (fun hnot => if_neg hnot) (fun hts hfamily => ?_) hold.2.symm
  · rw [hread]
    exact hpid
  · rw [hread, (hfamily proc).2]
    exact hstatus
  · rw [MmWorld.reports_waitResults hd.type hpid hstatus hzero, hold.1, MmWorld.report, hparent]
  · have hreport : (s.afterSend s.k k' (.cleanupFree proc ret)).report proc = s.report proc := by
      rw [MmWorld.report, MmWorld.report, (hfamily proc).1, (hfamily proc).2]
    rw [hold.1, ← hreport]
    exact if_pos hts

/-! ### Every step -/

/-- One step of `task_mm`. -/
theorem Ledger.taskStep (h : Ledger img s) (hs : Handshake img s)
    (htask : (s.k.procTable TASK_MM).pFlags = 0) (hparked : ExecParked img s s.k)
    (hwaits : ParentWaits img s s.k)
    (hapart : ∀ p, p ≠ TASK_MM → s.InCall p →
      ∀ a, InMessage (linear s.k.procTable p (s.buf p)) a → ¬ InTask img a)
    (hkept : ∀ a, InBlockedBuffer s.k.procTable a → k'.mem a = s.k.mem a) {pc' : MmPc}
    (hout : MmOutcome img s.k s.pc k' pc') : Ledger img (s.afterTask img s.k k' pc') := by
  have hserves := h.serves
  unfold Serves at hserves
  have hseparate : ∀ {q : Pid} {b : Addr}, s.Engaged 0 q → (∀ a, InMessage b a → InTask img a) →
      Separate (linear s.k.procTable q (s.buf q)) b :=
    fun hq hin a ha hb => hapart _ hq.ne hq.inCall a ha (hin a hb)
  unfold MmWorld.afterTask
  generalize hpc : s.pc = pc at hout hserves
  cases pc with
  | receive =>
    cases hout with
    | receive hrecv =>
      exact h.receive hs hpc htask hapart hkept (hrecv.effect (hs.sole.noInt TASK_MM))
  | dispatch => exact h.dispatch hs hpc htask hparked hwaits hkept hout
  | forkSend src child =>
    cases hout with
    | forkSend _ _ hsent =>
      obtain ⟨hchild, c, rfl, hne, hc⟩ := hserves
      exact h.answered hs (forkMessage img s.k) htask rfl hsent.outcome.effect hchild
        (hseparate hchild.engaged fun a ha => .inr (.inl ha)) hkept (.inr ⟨c, 0, rfl, hne, hc⟩)
        (MmWorld.unreported_none (by rw [hpc]; rfl))
  | cleanupSend proc ret =>
    cases hout with
    | cleanupSend _ parent _ hparent hsent =>
      obtain ⟨hret, p, hp, hwait⟩ := hserves
      obtain rfl := proc2pid_inj.mp (hp.symm.trans hparent)
      exact h.reportSent hs hpc hret htask hsent.outcome.effect hwait hparent
        (hseparate hwait.engaged fun a ha => .inr (.inr (.inl ha))) hkept
  | cleanupFree proc ret =>
    cases hout with
    | cleanupFree => exact h.cleaned hs hpc htask
  | exitScan pid i => exact h.scanned hs hpc htask hout
  | waitNone pid =>
    cases hout with
    | waitNone p hsent =>
      obtain ⟨q, hq, hwait⟩ := hserves
      obtain rfl := proc2pid_inj.mp hq
      exact h.refused hs hpc htask hsent.outcome.effect hwait
        (hseparate hwait.engaged fun a ha => .inr (.inr (.inr ha))) hkept
  | reply src retval =>
    cases hout with
    | reply p _ hsent =>
      obtain ⟨q, hq, hasks⟩ := hserves
      obtain rfl := proc2pid_inj.mp hq
      exact h.answered hs (replyMessage img s.k retval) htask rfl hsent.outcome.effect hasks
        (hseparate hasks.engaged fun a ha => .inl ha) hkept (.inl rfl)
        (MmWorld.unreported_none (by rw [hpc]; rfl))

/-- The condition on a step of `task_mm`: an EXIT finds the parent waiting, an EXEC
    its caller blocked in the receive, and a FORK gives the child a name that has room. -/
structure WaitFirst (img : MmImage) (s : MmWorld) (k : Machine) : Prop where
  parked : ExecParked img s k
  waits : ParentWaits img s k
  fits : NamesFit img s.pc k

/-- One call of one party. -/
theorem Ledger.step (h : Ledger img s) (hs : Handshake img s) (hflat : NativeFlat s.k.procTable)
    (hstep : WorldStep img (WaitFirst img) s s') : Ledger img s' := by
  cases hstep with
  | ask c m hq hc hready hpos hm hown hkept hcall =>
    exact (h.quiet hs hq).ask (hs.quiet hq) hc hready hpos hm hown hkept hcall
  | @await k _ c hq hc hready hpos hkept hcall =>
    have hown : ∀ a, InMessage (linear k.procTable c (s.buf c)) a → ¬ InTask img a := by
      rw [hq.table]
      exact hq.outside c hc (.inl hpos)
    have hflat' : NativeFlat k.procTable := by
      rw [hq.table]
      exact hflat
    by_cases hsends : SendsTo k.procTable TASK_MM c
    · exact (h.quiet hs hq).awaitTakes (hs.quiet hq) hc hflat' hready hsends hown hkept hcall
    · exact (h.quiet hs hq).awaitParks (hs.quiet hq) hc hready hsends hown hkept hcall
  | @task k _ _ eax hq hC hready hkept hcall =>
    refine (h.quiet hs hq).taskStep (hs.quiet hq) hready hC.parked hC.waits
      (fun p hp hin => ?_) hkept
      (mmStep_outcome hcall)
    exact hq.outside_inCall hp hin

theorem WorldStart.ledger (h : WorldStart img s) : Ledger img s := by
  have hflags : ∀ p, (s.k.procTable p).pFlags = 0 ∨ (s.k.procTable p).pFlags = FREE_SLOT :=
    fun p => (h.quiescent.idle p).flags
  have hno : ∀ p, ¬ Sending (s.k.procTable p) := h.quiescent.not_sending
  refine ⟨fun p => ?_, fun x _ hxs => absurd hxs (hno x), fun q hq => ?_, ?_,
    fun hts => absurd hts (hno _), ?_, ?_⟩
  · rcases hflags p with hp | hp
    · rw [hp]
      decide
    · rw [hp]
      decide
  · rcases hflags q with hp | hp
    · rw [hp] at hq
      exact absurd (by decide) hq
    · rw [hp] at hq
      exact absurd (by decide) hq
  · unfold Serves
    rw [h.pc]
    trivial
  · rw [MmWorld.reported, MmWorld.unreported, h.results, h.pc, h.exits]
    rfl
  · rw [MmWorld.unfreed, h.freed, h.pc, h.exits]
    rfl

end Task

end SimpleOs
