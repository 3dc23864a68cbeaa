import SimpleOs.Mm.Fork
import SimpleOs.Mm.Handshake

/-!
# The books of `exit` and `wait`

The observer of `MmWorld` has written down the EXIT requests that `task_mm` has
handled, what the calls of `wait` have returned and the slots that have been
freed. The books balance when a call of `wait` has returned for every EXIT, with
the number of the child and its status, and the slot of the child has been freed.

The invariant (`Ledger`) adds to the one of the EXEC handshake what the
processes in a `send_recv` have asked for, and whom `task_mm` owes a message.
Here is also what the calls of the clients do to it.
-/

namespace SimpleOs

open ByteMem Transition

/-! ## The books -/

/-- What `wait` returns for a child, and the flags of the parent then. -/
structure Report where
  parent : ℤ
  pid : BitVec 32
  status : BitVec 32
  flags : BitVec 32
  deriving DecidableEq

def WaitRecord.report (w : WaitRecord) : Report := ⟨proc2pid w.parent, w.pid, w.status, w.flags⟩

/-- What the parent should get. -/
def ExitRecord.report (e : ExitRecord) : Report :=
  ⟨e.parent, BitVec.ofInt 32 (proc2pid e.child), e.status, 0⟩

/-- The calls of `wait` that have returned with a child. -/
def reports (l : List WaitRecord) : List Report :=
  (l.filter fun w => w.pid ≠ BitVec.ofInt 32 NO_TASK).map WaitRecord.report

def MmWorld.reported (s : MmWorld) : List Report := reports s.results

/-- The process that `cleanup` is called for. -/
def MmPc.cleaning : MmPc → Option Pid
  | .cleanupSend proc _ => some proc
  | .cleanupFree proc _ => some proc
  | _ => none

/-- The report of `cleanup(proc)`. -/
def MmWorld.report (s : MmWorld) (proc : Pid) : Report :=
  ⟨(s.k.procTable proc).pParent, BitVec.ofInt 32 (proc2pid proc),
    (s.k.procTable proc).exitStatus, 0⟩

/-- The report that `task_mm` has yet to deliver. -/
def MmWorld.unreported (s : MmWorld) : List Report :=
  match s.pc with
  | .cleanupSend proc _ => [s.report proc]
  | .cleanupFree proc _ => if Sending (s.k.procTable TASK_MM) then [s.report proc] else []
  | _ => []

/-- The slot that it has yet to free. -/
def MmWorld.unfreed (s : MmWorld) : List (Pid × BitVec 32) :=
  match s.pc with
  | .cleanupSend proc _ => [(proc, FREE_SLOT)]
  | .cleanupFree proc _ => [(proc, FREE_SLOT)]
  | _ => []

/-! ## The invariant -/

/-- The process is in its `send_recv`: between the two calls, or blocked in the
    second. Apart from `extra`, its flags are those of IPC. -/
structure MmWorld.Engaged (s : MmWorld) (extra : BitVec 32) (q : Pid) : Prop where
  ne : q ≠ TASK_MM
  buf : s.buf q ≠ 0
  slot : ((s.k.procTable q).pFlags = extra ∧ s.pos q = .awaiting) ∨
    ((s.k.procTable q).pFlags = extra ||| RECEIVING ∧ (s.k.procTable q).msg = s.buf q ∧
      (s.k.procTable q).pRecvfrom = proc2pid TASK_MM)

/-- The process has called `wait`. -/
structure MmWorld.Waits (s : MmWorld) (extra : BitVec 32) (q : Pid) : Prop where
  engaged : s.Engaged extra q
  type : (s.request q).type = WAIT

/-- The process has made another request. -/
structure MmWorld.Asks (s : MmWorld) (q : Pid) : Prop where
  engaged : s.Engaged 0 q
  type : (s.request q).type ≠ WAIT

/-- The request of `c` is in `mm_msg`. -/
structure Holds (img : MmImage) (s : MmWorld) (c : Pid) : Prop where
  source : mmSource img s.k = proc2pid c
  engaged : s.Engaged 0 c
  message : readMessage s.k.mem img.mmMsg = s.request c

/-- Whom `task_mm` is going to send to. -/
def Serves (img : MmImage) (s : MmWorld) : Prop :=
  match s.pc with
  | .receive => True
  | .dispatch => (s.k.procTable TASK_MM).pFlags &&& RECEIVING = 0 → ∃ c, Holds img s c
  | .forkSend src child => s.Asks child ∧ ∃ c, src = proc2pid c ∧ c ≠ child ∧ s.Asks c
  | .cleanupSend proc ret => ret = .exit (proc2pid proc) ∧
    ∃ p, (s.k.procTable proc).pParent = proc2pid p ∧ s.Waits 0 p
  | .cleanupFree proc ret => ret = .exit (proc2pid proc)
  | .exitScan _ _ => True
  | .waitNone pid => ∃ c, pid = proc2pid c ∧ s.Waits 0 c
  | .reply src _ => ∃ c, src = proc2pid c ∧ s.Asks c

/-- What `task_mm` is sending to `d`, for which it waits. -/
inductive Errand (img : MmImage) (s : MmWorld) (d : Pid) : Prop
  /-- The answer to a FORK or an EXEC. -/
  | answer (hd : s.Asks d)
      (hpc : s.pc = .receive ∨ ∃ c r, s.pc = .reply (proc2pid c) r ∧ c ≠ d)
  /-- The answer to a WAIT of a process without children. -/
  | noTask (hpc : s.pc = .receive) (hmsg : (s.k.procTable TASK_MM).msg = img.waitMsg)
      (hpid : (readMessage s.k.mem img.waitMsg).pid = BitVec.ofInt 32 NO_TASK)
  /-- The report to a parent. -/
  | report (proc : Pid) (ret : Resume) (hpc : s.pc = .cleanupFree proc ret) (hd : s.Waits 0 d)
      (hready : (s.k.procTable d).pFlags = 0)
      (hparent : (s.k.procTable proc).pParent = proc2pid d)
      (hmsg : (s.k.procTable TASK_MM).msg = img.cleanupMsg)
      (hpid : (readMessage s.k.mem img.cleanupMsg).pid = BitVec.ofInt 32 (proc2pid proc))
      (hstatus : (readMessage s.k.mem img.cleanupMsg).status = (s.k.procTable proc).exitStatus)

structure Ledger (img : MmImage) (s : MmWorld) : Prop where
  hanging : ∀ p, (s.k.procTable p).pFlags &&& HANGING = 0
  asked : ∀ x, x ≠ TASK_MM → Sending (s.k.procTable x) → s.buf x ≠ 0 ∧
    readMessage s.k.mem (linear s.k.procTable x (s.buf x)) = s.request x
  asleep : ∀ q, (s.k.procTable q).pFlags &&& WAITING ≠ 0 → s.Waits WAITING q
  serves : Serves img s
  errand : Sending (s.k.procTable TASK_MM) →
    ∃ d, d ≠ TASK_MM ∧ (s.k.procTable TASK_MM).pSendto = proc2pid d ∧ Errand img s d
  results : s.reported ++ s.unreported = s.exits.map ExitRecord.report
  freed : s.freed ++ s.unfreed = s.exits.map fun e => (e.child, FREE_SLOT)

/-- The condition on a step of `task_mm`: an EXIT finds the parent waiting. -/
def ParentWaits (img : MmImage) (s : MmWorld) (k : Machine) : Prop :=
  s.pc = .dispatch → mmType img k = EXIT → ∀ c p, mmSource img k = proc2pid c →
    (k.procTable c).pParent = proc2pid p → (k.procTable p).pFlags &&& WAITING ≠ 0

/-! ## What a step leaves alone -/

section Frames

variable {img : MmImage} {s s' : MmWorld} {extra : BitVec 32} {q d : Pid}

theorem SameIpc.sending {p p' : Process} (h : SameIpc p p') : Sending p' ↔ Sending p := by
  rw [Sending, Sending, h.flags]

/-- Nothing has happened to `q`. -/
structure Untouched (s s' : MmWorld) (q : Pid) : Prop where
  ipc : SameIpc (s.k.procTable q) (s'.k.procTable q)
  pos : s'.pos q = s.pos q
  buf : s'.buf q = s.buf q
  request : s'.request q = s.request q

/-- If `q` was in its `send_recv`, it still is, with the same request. -/
def Keeps (s s' : MmWorld) (q : Pid) : Prop :=
  s.Engaged 0 q → s'.Engaged 0 q ∧ s'.request q = s.request q

theorem MmWorld.Engaged.untouched (h : s.Engaged extra q) (hq : Untouched s s' q) :
    s'.Engaged extra q := by
  refine ⟨h.ne, ?_, ?_⟩
  · rw [hq.buf]
    exact h.buf
  · rw [hq.ipc.flags, hq.pos, hq.ipc.msg, hq.buf, hq.ipc.recvfrom]
    exact h.slot

theorem Untouched.keeps (h : Untouched s s' q) : Keeps s s' q :=
  fun hq => ⟨hq.untouched h, h.request⟩

theorem MmWorld.Waits.untouched (h : s.Waits extra q) (hq : Untouched s s' q) :
    s'.Waits extra q := by
  refine ⟨h.engaged.untouched hq, ?_⟩
  rw [hq.request]
  exact h.type

theorem MmWorld.Waits.keeps (h : s.Waits 0 q) (hq : Keeps s s' q) : s'.Waits 0 q := by
  obtain ⟨hengaged, hrequest⟩ := hq h.engaged
  refine ⟨hengaged, ?_⟩
  rw [hrequest]
  exact h.type

theorem MmWorld.Asks.keeps (h : s.Asks q) (hq : Keeps s s' q) : s'.Asks q := by
  obtain ⟨hengaged, hrequest⟩ := hq h.engaged
  refine ⟨hengaged, ?_⟩
  rw [hrequest]
  exact h.type

/-- The process is one of those that `task_mm` is going to send to. -/
def MmWorld.Served (s : MmWorld) (q : Pid) : Prop :=
  match s.pc with
  | .forkSend src child => q = child ∨ src = proc2pid q
  | .cleanupSend proc _ => (s.k.procTable proc).pParent = proc2pid q
  | .waitNone pid => pid = proc2pid q
  | .reply src _ => src = proc2pid q
  | _ => False

/-- What `Serves` needs when `task_mm` stays where it is. -/
theorem Serves.mono (h : Serves img s) (hpc : s'.pc = s.pc)
    (hparent : ∀ p, (s'.k.procTable p).pParent = (s.k.procTable p).pParent)
    (hkeep : ∀ q, s.Served q → Keeps s s' q)
    (hhand : s.pc = .dispatch → (s'.k.procTable TASK_MM).pFlags &&& RECEIVING = 0 →
      ∃ c, Holds img s' c) : Serves img s' := by
  unfold Serves at h ⊢
  unfold MmWorld.Served at hkeep
  rw [hpc]
  cases hcase : s.pc with
  | receive => trivial
  | dispatch => exact hhand hcase
  | forkSend src child =>
    rw [hcase] at h hkeep
    obtain ⟨hchild, c, rfl, hne, hc⟩ := h
    exact ⟨hchild.keeps (hkeep child (.inl rfl)), c, rfl, hne, hc.keeps (hkeep c (.inr rfl))⟩
  | cleanupSend proc ret =>
    rw [hcase] at h hkeep
    obtain ⟨hret, p, hp, hwaits⟩ := h
    refine ⟨hret, p, ?_, hwaits.keeps (hkeep p hp)⟩
    rw [hparent]
    exact hp
  | cleanupFree proc ret =>
    rw [hcase] at h
    exact h
  | exitScan pid i => trivial
  | waitNone pid =>
    rw [hcase] at h hkeep
    obtain ⟨c, rfl, hc⟩ := h
    exact ⟨c, rfl, hc.keeps (hkeep c rfl)⟩
  | reply src r =>
    rw [hcase] at h hkeep
    obtain ⟨c, rfl, hc⟩ := h
    exact ⟨c, rfl, hc.keeps (hkeep c rfl)⟩

theorem Errand.mono (h : Errand img s d) (hpc : s'.pc = s.pc) (hkeep : Keeps s s' d)
    (hflags : s.Engaged 0 d → (s'.k.procTable d).pFlags = (s.k.procTable d).pFlags)
    (hparent : ∀ p, (s'.k.procTable p).pParent = (s.k.procTable p).pParent)
    (hstatus : ∀ p, (s'.k.procTable p).exitStatus = (s.k.procTable p).exitStatus)
    (hmsg : (s'.k.procTable TASK_MM).msg = (s.k.procTable TASK_MM).msg)
    (hmem : ∀ a, InTask img a → s'.k.mem a = s.k.mem a) : Errand img s' d := by
  cases h with
  | answer hd hpc' =>
    refine .answer (hd.keeps hkeep) ?_
    rw [hpc]
    exact hpc'
  | noTask hpc' hmsg' hpid =>
    refine .noTask (hpc.trans hpc') (hmsg.trans hmsg') ?_
    rw [readMessage_frame fun a ha => hmem a (.inr (.inr (.inr ha)))]
    exact hpid
  | report proc ret hpc' hd hready hparent' hmsg' hpid hstatus' =>
    have hread : readMessage s'.k.mem img.cleanupMsg = readMessage s.k.mem img.cleanupMsg :=
      readMessage_frame fun a ha => hmem a (.inr (.inr (.inl ha)))
    refine .report proc ret (hpc.trans hpc') (hd.keeps hkeep) ((hflags hd.engaged).trans hready)
      ((hparent proc).trans hparent') (hmsg.trans hmsg') ?_ ?_
    · rw [hread]
      exact hpid
    · rw [hread, hstatus]
      exact hstatus'

theorem MmWorld.unreported_congr (hpc : s'.pc = s.pc)
    (hsend : Sending (s'.k.procTable TASK_MM) ↔ Sending (s.k.procTable TASK_MM))
    (hparent : ∀ p, (s'.k.procTable p).pParent = (s.k.procTable p).pParent)
    (hstatus : ∀ p, (s'.k.procTable p).exitStatus = (s.k.procTable p).exitStatus) :
    s'.unreported = s.unreported := by
  have hreport : ∀ proc, s'.report proc = s.report proc := by
    intro proc
    rw [MmWorld.report, MmWorld.report, hparent, hstatus]
  unfold MmWorld.unreported
  rw [hpc]
  cases s.pc with
  | cleanupSend proc ret =>
    dsimp only
    rw [hreport]
  | cleanupFree proc ret =>
    dsimp only
    rw [hreport]
    exact if_congr hsend rfl rfl
  | _ => rfl

theorem MmWorld.unfreed_congr (hpc : s'.pc = s.pc) : s'.unfreed = s.unfreed := by
  unfold MmWorld.unfreed
  rw [hpc]

theorem Holds.mono (h : Holds img s q) (hkeep : Keeps s s' q)
    (hmem : ∀ a, InTask img a → s'.k.mem a = s.k.mem a) : Holds img s' q := by
  obtain ⟨hengaged, hrequest⟩ := hkeep h.engaged
  refine ⟨(mmSource_frame hmem).trans h.source, hengaged, ?_⟩
  rw [readMessage_frame fun a ha => hmem a (.inl ha), hrequest]
  exact h.message

/-- The flags of process management are not set at `task_mm`. -/
theorem Ledger.task_flags (h : Ledger img s)
    (htask : (s'.k.procTable TASK_MM).pFlags = (s.k.procTable TASK_MM).pFlags ∨
      (s'.k.procTable TASK_MM).pFlags = 0) :
    (s'.k.procTable TASK_MM).pFlags &&& WAITING = 0 ∧
      (s'.k.procTable TASK_MM).pFlags &&& HANGING = 0 := by
  rcases htask with htask | htask
  · rw [htask]
    refine ⟨?_, h.hanging TASK_MM⟩
    by_contra hw
    exact (h.asleep TASK_MM hw).engaged.ne rfl
  · rw [htask]
    exact ⟨by decide, by decide⟩

/-- The message of a sender that nobody writes. -/
theorem Ledger.asked_kept (h : Ledger img s) (hs : Handshake img s) {k' : Machine} {x : Pid}
    (hx : x ≠ TASK_MM) (hsend : Sending (s.k.procTable x))
    (hkept : ∀ a, InBlockedBuffer s.k.procTable a → k'.mem a = s.k.mem a) :
    readMessage k'.mem (linear s.k.procTable x (s.buf x)) = s.request x := by
  obtain ⟨_, hmsg, _⟩ := hs.asking x hx hsend
  rw [← (h.asked x hx hsend).2]
  refine readMessage_frame fun a ha => hkept a ⟨x, hsend, ?_⟩
  rw [hmsg]
  exact ha

theorem Ledger.served_ne (h : Ledger img s) (hq : s.Served q) : q ≠ TASK_MM := by
  have hserves := h.serves
  unfold Serves at hserves
  unfold MmWorld.Served at hq
  cases hcase : s.pc with
  | forkSend src child =>
    rw [hcase] at hserves hq
    obtain ⟨hchild, x, hx, _, hxa⟩ := hserves
    rcases hq with rfl | hq
    · exact hchild.engaged.ne
    · rw [proc2pid_inj.mp (hq.symm.trans hx)]
      exact hxa.engaged.ne
  | cleanupSend proc ret =>
    rw [hcase] at hserves hq
    obtain ⟨_, p, hp, hwaits⟩ := hserves
    rw [proc2pid_inj.mp (hq.symm.trans hp)]
    exact hwaits.engaged.ne
  | waitNone pid =>
    rw [hcase] at hserves hq
    obtain ⟨x, hx, hxa⟩ := hserves
    rw [proc2pid_inj.mp (hq.symm.trans hx)]
    exact hxa.engaged.ne
  | reply src r =>
    rw [hcase] at hserves hq
    obtain ⟨x, hx, hxa⟩ := hserves
    rw [proc2pid_inj.mp (hq.symm.trans hx)]
    exact hxa.engaged.ne
  | _ =>
    rw [hcase] at hq
    exact hq.elim

/-- The message that `task_mm` is to serve next stays. -/
theorem Ledger.holds_kept (h : Ledger img s) (hpc : s.pc = .dispatch)
    (htask : SameIpc (s.k.procTable TASK_MM) (s'.k.procTable TASK_MM))
    (hr : (s'.k.procTable TASK_MM).pFlags &&& RECEIVING = 0) (hkeeps : ∀ x, Keeps s s' x)
    (hmem : ∀ a, InTask img a → s'.k.mem a = s.k.mem a) : ∃ x, Holds img s' x := by
  have hserves := h.serves
  unfold Serves at hserves
  rw [hpc] at hserves
  rw [htask.flags] at hr
  obtain ⟨x, hx⟩ := hserves hr
  exact ⟨x, hx.mono (hkeeps x) hmem⟩

/-- The books after a step in which `c` has made a call, and `task_mm` has not been
    released from a send. -/
theorem Ledger.moved {c : Pid} (h : Ledger img s) (hs : Handshake img s) (hpc : s'.pc = s.pc)
    (hbooks : s'.results = s.results ∧ s'.exits = s.exits ∧ s'.freed = s.freed)
    (hothers : ∀ q, q ≠ c → q ≠ TASK_MM → Untouched s s' q)
    (hparent : ∀ p, (s'.k.procTable p).pParent = (s.k.procTable p).pParent)
    (hstatus : ∀ p, (s'.k.procTable p).exitStatus = (s.k.procTable p).exitStatus)
    (hlin : ∀ p va, linear s'.k.procTable p va = linear s.k.procTable p va)
    (hself : Keeps s s' c)
    (hflags : (s'.k.procTable c).pFlags &&& WAITING = 0 ∧
      (s'.k.procTable c).pFlags &&& HANGING = 0)
    (hask : c ≠ TASK_MM → Sending (s'.k.procTable c) → s'.buf c ≠ 0 ∧
      readMessage s'.k.mem (linear s'.k.procTable c (s'.buf c)) = s'.request c)
    (htask : (s'.k.procTable TASK_MM).pFlags = (s.k.procTable TASK_MM).pFlags ∨
      (s'.k.procTable TASK_MM).pFlags = 0)
    (hsend : Sending (s'.k.procTable TASK_MM) ↔ Sending (s.k.procTable TASK_MM))
    (hblocked : Sending (s.k.procTable TASK_MM) →
      (s'.k.procTable TASK_MM).msg = (s.k.procTable TASK_MM).msg ∧
      (s'.k.procTable TASK_MM).pSendto = (s.k.procTable TASK_MM).pSendto ∧
      ∀ a, InTask img a → s'.k.mem a = s.k.mem a)
    (hfar : SendsTo s.k.procTable TASK_MM c → ¬ s.Engaged 0 c)
    (hhand : s.pc = .dispatch → (s'.k.procTable TASK_MM).pFlags &&& RECEIVING = 0 →
      ∃ x, Holds img s' x)
    (hkept : ∀ a, InBlockedBuffer s.k.procTable a → s'.k.mem a = s.k.mem a) : Ledger img s' := by
  obtain ⟨htw, hth⟩ := h.task_flags htask
  have hkeep : ∀ q, q ≠ TASK_MM → Keeps s s' q := by
    intro q hq
    by_cases hqc : q = c
    · rw [hqc]
      exact hself
    · exact (hothers q hqc hq).keeps
  refine ⟨fun p => ?_, fun x hx hxs => ?_, fun q hq => ?_, ?_, fun hts => ?_, ?_, ?_⟩
  · by_cases hpm : p = TASK_MM
    · rw [hpm]
      exact hth
    · by_cases hpc' : p = c
      · rw [hpc']
        exact hflags.2
      · rw [(hothers p hpc' hpm).ipc.flags]
        exact h.hanging p
  · by_cases hxc : x = c
    · subst hxc
      exact hask hx hxs
    · have hun := hothers x hxc hx
      have hxs' : Sending (s.k.procTable x) := by
        rw [Sending, ← hun.ipc.flags]
        exact hxs
      rw [hun.buf, hun.request, hlin]
      exact ⟨(h.asked x hx hxs').1, h.asked_kept hs hx hxs' hkept⟩
  · have hqm : q ≠ TASK_MM := by
      intro hqm
      rw [hqm] at hq
      exact hq htw
    have hqc : q ≠ c := by
      intro hqc
      rw [hqc] at hq
      exact hq hflags.1
    have hun := hothers q hqc hqm
    rw [hun.ipc.flags] at hq
    exact (h.asleep q hq).untouched hun
  · exact h.serves.mono hpc hparent (fun q hq => hkeep q (h.served_ne hq)) hhand
  · have hts' := hsend.mp hts
    obtain ⟨d, hdm, hd, herrand⟩ := h.errand hts'
    obtain ⟨hmsg, hsendto, hmem⟩ := hblocked hts'
    refine ⟨d, hdm, hsendto.trans hd,
      herrand.mono hpc (hkeep d hdm) (fun hengaged => ?_) hparent hstatus hmsg hmem⟩
    have hdc : d ≠ c := by
      intro hdc
      rw [hdc] at hd hengaged
      exact hfar ⟨hts', hd⟩ hengaged
    exact (hothers d hdc hdm).ipc.flags
  · rw [MmWorld.reported, hbooks.1, MmWorld.unreported_congr hpc hsend hparent hstatus, hbooks.2.1]
    exact h.results
  · rw [hbooks.2.2, MmWorld.unfreed_congr hpc, hbooks.2.1]
    exact h.freed

end Frames

/-! ## Between the calls -/

theorem Ledger.quiet {img : MmImage} {s : MmWorld} {k : Machine} (h : Ledger img s)
    (hs : Handshake img s) (hq : Quiet img s k) : Ledger img { s with k := k } := by
  have ht := hq.table
  have huntouched : ∀ q, Untouched s { s with k := k } q := by
    intro q
    refine ⟨?_, rfl, rfl, rfl⟩
    dsimp only
    rw [ht]
    exact ⟨rfl, rfl, rfl, rfl⟩
  have hsame : ∀ p, k.procTable p = s.k.procTable p := fun p => congrFun ht p
  have hmem : ∀ a, InTask img a → k.mem a = s.k.mem a := fun a ha => hq.mem a (.inl ha)
  have htask : (k.procTable TASK_MM).pFlags = (s.k.procTable TASK_MM).pFlags := by rw [hsame]
  refine h.moved (c := TASK_MM) hs rfl ⟨rfl, rfl, rfl⟩ (fun q _ _ => huntouched q) (fun p => ?_)
    (fun p => ?_) (fun p va => ?_) (huntouched TASK_MM).keeps (h.task_flags (.inl htask))
    (fun hne => absurd rfl hne) (.inl htask) ?_ (fun _ => ⟨?_, ?_, hmem⟩)
    (fun _ hc => hc.ne rfl) (fun hpc hr => ?_) fun a ha => hq.mem a (.inr ha)
  · dsimp only
    rw [hsame]
  · dsimp only
    rw [hsame]
  · dsimp only
    rw [ht]
  · dsimp only
    rw [hsame]
  · dsimp only
    rw [hsame]
  · dsimp only
    rw [hsame]
  · have hserves := h.serves
    unfold Serves at hserves
    rw [hpc] at hserves
    dsimp only at hr
    rw [hsame] at hr
    obtain ⟨x, hx⟩ := hserves hr
    exact ⟨x, hx.mono (huntouched x).keeps hmem⟩

/-! ## The clients -/

section Clients

variable {img : MmImage} {s : MmWorld} {k k' : Machine} {c d : Pid} {m : Addr}

/-- A call between two processes changes neither whose child a process is nor its
    exit status. -/
theorem SendEffect.family (h : SendEffect k c d m k') (p : Pid) :
    (k'.procTable p).pParent = (k.procTable p).pParent ∧
      (k'.procTable p).exitStatus = (k.procTable p).exitStatus := by
  cases h with
  | delivered _ _ htable _ =>
    rw [htable]
    exact ⟨rfl, rfl⟩
  | queued _ _ _ htable _ =>
    rw [htable]
    exact ⟨rfl, rfl⟩

theorem ReceiveEffect.family {src : ℤ} (h : ReceiveEffect k c src m k') (p : Pid) :
    (k'.procTable p).pParent = (k.procTable p).pParent ∧
      (k'.procTable p).exitStatus = (k.procTable p).exitStatus := by
  cases h with
  | taken _ _ _ _ _ htable _ =>
    rw [htable]
    exact ⟨rfl, rfl⟩
  | parked _ htable _ =>
    rw [htable]
    exact ⟨rfl, rfl⟩

/-- A process that has been ready is not blocked in a receive. -/
theorem MmWorld.Engaged.awaiting (h : s.Engaged 0 c) (hready : (s.k.procTable c).pFlags = 0) :
    s.pos c = .awaiting := by
  rcases h.slot with hslot | hslot
  · exact hslot.2
  · rw [hready] at hslot
    exact absurd hslot.1 (by decide)

/-- A process that accepts a message from `task_mm` is blocked in its receive. -/
theorem MmWorld.Engaged.parked (h : s.Engaged 0 c) (hacc : Accepts s.k.procTable c TASK_MM) :
    (s.k.procTable c).pFlags = 0 ||| RECEIVING ∧ (s.k.procTable c).msg = s.buf c ∧
      (s.k.procTable c).pRecvfrom = proc2pid TASK_MM := by
  rcases h.slot with hslot | hslot
  · exact absurd hacc (not_accepts_of_ready hslot.1)
  · exact hslot

theorem MmWorld.Engaged.due (h : s.Engaged 0 c) (hno : ¬ Accepts s.k.procTable c TASK_MM) :
    (s.k.procTable c).pFlags = 0 := by
  rcases h.slot with hslot | hslot
  · exact hslot.1
  · refine absurd ⟨?_, .inl hslot.2.2⟩ hno
    rw [hslot.1]
    decide

/-- A change of the flags that are not of the IPC layer. -/
theorem MmWorld.Engaged.reflag {s' : MmWorld} {extra extra' : BitVec 32}
    (f : BitVec 32 → BitVec 32) (h : s.Engaged extra c) (hdue : f extra = extra')
    (hparked : f (extra ||| RECEIVING) = extra' ||| RECEIVING)
    (hflags : (s'.k.procTable c).pFlags = f (s.k.procTable c).pFlags)
    (hmsg : (s'.k.procTable c).msg = (s.k.procTable c).msg)
    (hrecvfrom : (s'.k.procTable c).pRecvfrom = (s.k.procTable c).pRecvfrom)
    (hpos : s'.pos c = s.pos c) (hbuf : s'.buf c = s.buf c) : s'.Engaged extra' c := by
  refine ⟨h.ne, by rw [hbuf]; exact h.buf, ?_⟩
  rw [hflags, hmsg, hrecvfrom, hpos, hbuf]
  rcases h.slot with ⟨hslot, hawaiting⟩ | ⟨hslot, hrest⟩
  · rw [hslot]
    exact .inl ⟨hdue, hawaiting⟩
  · rw [hslot]
    exact .inr ⟨hparked, hrest⟩

/-- A client sends a request. -/
theorem Ledger.ask (h : Ledger img s) (hs : Handshake img s) (hc : c ≠ TASK_MM)
    (hready : (s.k.procTable c).pFlags = 0) (hpos : s.pos c ≠ .awaiting) (hm : m ≠ 0)
    (hown : ∀ a, InMessage (linear s.k.procTable c m) a → ¬ InTask img a)
    (hkept : ∀ a, InBlockedBuffer s.k.procTable a → k'.mem a = s.k.mem a)
    (hcall : sysSendrec s.k SEND (proc2pid TASK_MM) m c = .ok k') :
    Ledger img (s.afterAsk s.k k' c m) := by
  have heff : SendEffect s.k c TASK_MM m k' := sysSendrec_send hcall
  have hfamily := heff.family
  have hlin := heff.linear_eq
  have hstamp : readMessage (stampSource s.k c m).mem (linear s.k.procTable c m) = passed s.k c m :=
    stampSource_message s.k c m
  have hout : ∀ a, InTask img a → (stampSource s.k c m).mem a = s.k.mem a :=
    fun a ha => stampSource_kept fun hca => hown a hca ha
  have hfree : ¬ s.Engaged 0 c := fun hc => hpos (hc.awaiting hready)
  have hself : Keeps s (s.afterAsk s.k k' c m) c := fun hc => absurd hc hfree
  have hothers : ∀ q, q ≠ c → SameIpc (s.k.procTable q) (k'.procTable q) →
      Untouched s (s.afterAsk s.k k' c m) q := fun q hq hipc =>
    ⟨hipc, Function.update_of_ne hq _ _, Function.update_of_ne hq _ _, Function.update_of_ne hq _ _⟩
  cases heff with
  | delivered hacc hflags htable hmem =>
    -- `task_mm` was waiting, and has the message now
    have hzero : (k'.procTable TASK_MM).pFlags = 0 := by
      rw [htable]
      exact deliver_flags hflags
    have hcflags : (k'.procTable c).pFlags = 0 := by
      rw [htable, (sameIpc_deliver _ hc).flags]
      exact hready
    have hnot' : ¬ Sending (k'.procTable TASK_MM) := not_sending_of_flags_zero hzero
    have hnot : ¬ Sending (s.k.procTable TASK_MM) := by
      rw [htable, (sameQueues_deliver _ TASK_MM).sending] at hnot'
      exact hnot'
    have hread : readMessage k'.mem img.mmMsg = passed s.k c m := by
      obtain ⟨_, hmsg⟩ := hs.listening hacc.1
      have hover : NoForwardOverlap sizeofMessage img.mmMsg (linear s.k.procTable c m) :=
        noForwardOverlap_of_disjoint fun a ha hca => hown a hca (.inl ha)
      rw [hmem, hmsg, hs.sole.linear_task, readMessage_copy hover, hstamp]
    have hrequest : (s.afterAsk s.k k' c m).request c = passed s.k c m := Function.update_self ..
    have hbuf : (s.afterAsk s.k k' c m).buf c = m := Function.update_self ..
    refine h.moved hs rfl ⟨rfl, rfl, rfl⟩ (fun q hq hqm => hothers q hq ?_)
      (fun p => (hfamily p).1) (fun p => (hfamily p).2) hlin hself ?_
      (fun _ hcs => absurd hcs (not_sending_of_flags_zero hcflags)) (.inr hzero)
      ⟨fun hts => absurd hts hnot', fun hts => absurd hts hnot⟩ (fun hts => absurd hts hnot)
      (fun _ => hfree)
      (fun _ _ => ⟨c, ?_, ⟨hc, ?_, .inl ⟨hcflags, Function.update_self ..⟩⟩, ?_⟩) hkept
    · rw [htable]
      exact sameIpc_deliver _ hqm
    · unfold MmWorld.afterAsk
      dsimp only
      rw [hcflags]
      exact ⟨by decide, by decide⟩
    · exact mmSource_of_message (by rw [MmWorld.afterAsk, hread]; rfl)
    · rw [hbuf]
      exact hm
    · rw [hrequest]
      exact hread
  | queued hacc tail htail htable hmem =>
    have hipc : ∀ q, q ≠ c → SameIpc (s.k.procTable q) (k'.procTable q) := by
      intro q hq
      rw [htable]
      exact sameIpc_enqueue _ m tail hq
    have hcflags : (k'.procTable c).pFlags = SENDING := by
      rw [htable]
      exact enqueue_flags TASK_MM m tail hready
    have htask := hipc TASK_MM hc.symm
    have hmem' : ∀ a, InTask img a → k'.mem a = s.k.mem a := by
      intro a ha
      rw [hmem]
      exact hout a ha
    have hrequest : (s.afterAsk s.k k' c m).request c = passed s.k c m := Function.update_self ..
    have hbuf : (s.afterAsk s.k k' c m).buf c = m := Function.update_self ..
    refine h.moved hs rfl ⟨rfl, rfl, rfl⟩ (fun q hq _ => hothers q hq (hipc q hq))
      (fun p => (hfamily p).1) (fun p => (hfamily p).2) hlin hself ?_ (fun _ _ => ?_)
      (.inl htask.flags) ?_ (fun _ => ⟨htask.msg, htask.sendto, hmem'⟩) (fun _ => hfree)
      (fun hpc hr => ?_) hkept
    · unfold MmWorld.afterAsk
      dsimp only
      rw [hcflags]
      exact ⟨by decide, by decide⟩
    · rw [hrequest, hbuf]
      refine ⟨hm, ?_⟩
      change readMessage k'.mem (linear k'.procTable c m) = _
      rw [hlin, hmem]
      exact hstamp
    · exact htask.sending
    · refine h.holds_kept hpc htask hr (fun x => ?_) hmem'
      by_cases hxc : x = c
      · rw [hxc]
        exact hself
      · exact (hothers x hxc (hipc x hxc)).keeps

/-- A receive that finds `task_mm` not sending. -/
theorem Ledger.awaitParks (h : Ledger img s) (hs : Handshake img s) (hc : c ≠ TASK_MM)
    (hready : (s.k.procTable c).pFlags = 0) (hno : ¬ SendsTo s.k.procTable TASK_MM c)
    (hown : ∀ a, InMessage (linear s.k.procTable c (s.buf c)) a → ¬ InTask img a)
    (hkept : ∀ a, InBlockedBuffer s.k.procTable a → k'.mem a = s.k.mem a)
    (hcall : sysSendrec s.k RECEIVE (proc2pid TASK_MM) (s.buf c) c = .ok k') :
    Ledger img (s.afterAwait s.k k' c) := by
  have hfamily := (sysSendrec_receive (hs.sole.noInt c) hcall).family
  have hlin := (sysSendrec_receive (hs.sole.noInt c) hcall).linear_eq
  obtain ⟨htable, hrecv, hout⟩ := receive_parks (hs.sole.noInt c) hno hcall
  have hipc : ∀ q, q ≠ c → SameIpc (s.k.procTable q) (k'.procTable q) := by
    intro q hq
    rw [htable]
    exact sameIpc_park _ _ _ hq
  have hslot : (k'.procTable c).pFlags = RECEIVING ∧ (k'.procTable c).msg = s.buf c ∧
      (k'.procTable c).pRecvfrom = proc2pid TASK_MM := by
    rw [htable]
    simp [park, hready]
  have htask := hipc TASK_MM hc.symm
  have hmem : ∀ a, InTask img a → k'.mem a = s.k.mem a :=
    fun a ha => hout a fun hca => hown a hca ha
  have hothers : ∀ q, q ≠ c → Untouched s (s.afterAwait s.k k' c) q := fun q hq =>
    ⟨hipc q hq, Function.update_of_ne hq _ _, rfl, rfl⟩
  have hself : Keeps s (s.afterAwait s.k k' c) c := fun hc =>
    ⟨⟨hc.ne, hc.buf, .inr ⟨hslot.1, hslot.2⟩⟩, rfl⟩
  have hresults : (s.afterAwait s.k k' c).results = s.results := by
    unfold MmWorld.afterAwait
    dsimp only
    rw [hrecv]
    exact List.append_nil _
  refine h.moved hs rfl ⟨hresults, rfl, rfl⟩ (fun q hq _ => hothers q hq)
    (fun p => (hfamily p).1) (fun p => (hfamily p).2) hlin hself ?_ (fun _ hcs => ?_)
    (.inl htask.flags) htask.sending (fun _ => ⟨htask.msg, htask.sendto, hmem⟩)
    (fun hc => absurd hc hno) (fun hpc hr => ?_) hkept
  · unfold MmWorld.afterAwait
    dsimp only
    rw [hslot.1]
    exact ⟨by decide, by decide⟩
  · unfold MmWorld.afterAwait at hcs
    dsimp only at hcs
    rw [Sending, hslot.1] at hcs
    exact absurd (by decide) hcs
  · refine h.holds_kept hpc htask hr (fun x => ?_) hmem
    by_cases hxc : x = c
    · rw [hxc]
      exact hself
    · exact (hothers x hxc).keeps

theorem reports_append (l l' : List WaitRecord) : reports (l ++ l') = reports l ++ reports l' := by
  simp [reports]

/-- The answers to other requests are no results of `wait`. -/
theorem MmWorld.waitResults_of_ne {msg : Message} (h : (s.request c).type ≠ WAIT) :
    s.waitResults k' [⟨TASK_MM, c, msg⟩] = [] := by
  unfold MmWorld.waitResults
  rw [List.filter_cons_of_neg (by simpa using h)]
  rfl

theorem MmWorld.waitResults_of_eq {msg : Message} (h : (s.request c).type = WAIT) :
    s.waitResults k' [⟨TASK_MM, c, msg⟩] =
      [⟨c, msg.pid, msg.status, (k'.procTable c).pFlags⟩] := by
  unfold MmWorld.waitResults
  rw [List.filter_cons_of_pos (by simpa using h)]
  rfl

/-- The answer `NO_TASK` reports nothing. -/
theorem MmWorld.reports_waitResults_noTask {msg : Message}
    (h : msg.pid = BitVec.ofInt 32 NO_TASK) :
    reports (s.waitResults k' [⟨TASK_MM, c, msg⟩]) = [] := by
  by_cases ht : (s.request c).type = WAIT
  · unfold reports
    rw [MmWorld.waitResults_of_eq ht, List.filter_cons_of_neg (by simpa using h)]
    rfl
  · rw [MmWorld.waitResults_of_ne ht]
    rfl

theorem ofInt_proc2pid_ne_noTask :
    ∀ p : Pid, BitVec.ofInt 32 (proc2pid p) ≠ BitVec.ofInt 32 NO_TASK := by
  decide

/-- The message of `cleanup` is a report. -/
theorem MmWorld.reports_waitResults {msg : Message} {proc : Pid} {status : BitVec 32}
    (ht : (s.request c).type = WAIT) (hpid : msg.pid = BitVec.ofInt 32 (proc2pid proc))
    (hstatus : msg.status = status) (hflags : (k'.procTable c).pFlags = 0) :
    reports (s.waitResults k' [⟨TASK_MM, c, msg⟩]) =
      [⟨proc2pid c, BitVec.ofInt 32 (proc2pid proc), status, 0⟩] := by
  have hne := ofInt_proc2pid_ne_noTask proc
  unfold reports
  rw [MmWorld.waitResults_of_eq ht, hpid, hstatus, hflags,
    List.filter_cons_of_pos (by simpa using hne)]
  rfl

theorem Errand.pc_ne (h : Errand img s d) : s.pc ≠ .dispatch := by
  intro hdispatch
  cases h with
  | answer _ hpc =>
    rw [hdispatch] at hpc
    rcases hpc with hpc | ⟨_, _, hpc, _⟩
    · cases hpc
    · cases hpc
  | noTask hpc => exact nomatch hdispatch.symm.trans hpc
  | report _ _ hpc => exact nomatch hdispatch.symm.trans hpc

/-- Nobody is sent to twice for one request. -/
theorem Errand.served_ne {q : Pid} (h : Errand img s d) (hq : s.Served q) : q ≠ d := by
  unfold MmWorld.Served at hq
  cases h with
  | answer _ hpc =>
    rcases hpc with hpc | ⟨c, r, hpc, hne⟩
    · rw [hpc] at hq
      exact hq.elim
    · rw [hpc] at hq
      rw [← proc2pid_inj.mp hq]
      exact hne
  | noTask hpc =>
    rw [hpc] at hq
    exact hq.elim
  | report proc ret hpc =>
    rw [hpc] at hq
    exact hq.elim

/-- What is delivered with the errand is what was owed. -/
theorem Errand.reports_delivered {l : List Event} {msg : Message} (h : Errand img s c)
    (hsending : Sending (s.k.procTable TASK_MM)) (hcflags : (k'.procTable c).pFlags = 0)
    (hany : l = [⟨TASK_MM, c, msg⟩])
    (hmeets : ∀ b, (s.k.procTable TASK_MM).msg = b → (∀ a, InMessage b a → InTask img a) →
      l = [⟨TASK_MM, c, readMessage s.k.mem b⟩]) :
    reports (s.waitResults k' l) = s.unreported := by
  cases h with
  | answer hd hpc =>
    rw [hany, MmWorld.waitResults_of_ne hd.type, MmWorld.unreported]
    rcases hpc with hpc | ⟨_, _, hpc, _⟩
    · rw [hpc]
      rfl
    · rw [hpc]
      rfl
  | noTask hpc hmsg hpid =>
    rw [hmeets _ hmsg fun a ha => .inr (.inr (.inr ha)), MmWorld.reports_waitResults_noTask hpid,
      MmWorld.unreported, hpc]
  | report proc ret hpc hd _ hparent hmsg hpid hstatus =>
    rw [hmeets _ hmsg fun a ha => .inr (.inr (.inl ha)),
      MmWorld.reports_waitResults hd.type hpid hstatus hcflags, MmWorld.unreported, hpc]
    dsimp only
    rw [if_pos hsending, MmWorld.report, hparent]

/-- Nothing is owed any more when `task_mm` has got rid of it. -/
theorem Errand.unreported_eq_nil {s' : MmWorld} (h : Errand img s d) (hpc' : s'.pc = s.pc)
    (hfree : ¬ Sending (s'.k.procTable TASK_MM)) : s'.unreported = [] := by
  rw [MmWorld.unreported, hpc']
  cases h with
  | answer _ hpc =>
    rcases hpc with hpc | ⟨_, _, hpc, _⟩
    · rw [hpc]
    · rw [hpc]
  | noTask hpc => rw [hpc]
  | report proc ret hpc =>
    rw [hpc]
    exact if_neg hfree

/-- A flag that is clear stays so when others are cleared. -/
theorem clear_flag {f g flag : BitVec 32} (h : f &&& flag = 0) : (f &&& g) &&& flag = 0 := by
  rw [BitVec.and_assoc, BitVec.and_comm g, ← BitVec.and_assoc, h]
  exact BitVec.zero_and

theorem flag_cleared (f flag : BitVec 32) : (f &&& ~~~flag) &&& flag = 0 := by
  rw [BitVec.and_assoc, BitVec.and_comm (~~~flag), BitVec.and_not_self]
  exact BitVec.and_zero

/-- A receive of a client whose queue begins with `task_mm`. -/
theorem receive_takes (hsends : SendsTo k.procTable TASK_MM c)
    (hhead : (k.procTable c).qSending = some TASK_MM)
    (h : ReceiveEffect k c (proc2pid TASK_MM) m k') :
    k'.procTable = dequeue k.procTable c TASK_MM none ∧
      receiveReceived k k' c m =
        [⟨TASK_MM, c, readMessage k'.mem (linear k.procTable c m)⟩] := by
  cases h.from_proc with
  | taken prev _ hprev htable _ =>
    obtain rfl : prev = none := by
      rcases hprev with ⟨hnone, _⟩ | ⟨_, hne, _⟩
      · exact hnone
      · exact absurd hhead hne
    refine ⟨htable, ?_⟩
    rw [receiveReceived, htable, completed_dequeue hsends.1]
    rfl
  | parked hno _ _ => exact absurd hsends hno

/-- The client takes the message that `task_mm` is sending to it. -/
theorem Ledger.awaitTakes (h : Ledger img s) (hs : Handshake img s) (hc : c ≠ TASK_MM)
    (hflat : NativeFlat s.k.procTable) (hready : (s.k.procTable c).pFlags = 0)
    (hsends : SendsTo s.k.procTable TASK_MM c)
    (hown : ∀ a, InMessage (linear s.k.procTable c (s.buf c)) a → ¬ InTask img a)
    (hkept : ∀ a, InBlockedBuffer s.k.procTable a → k'.mem a = s.k.mem a)
    (hcall : sysSendrec s.k RECEIVE (proc2pid TASK_MM) (s.buf c) c = .ok k') :
    Ledger img (s.afterAwait s.k k' c) := by
  obtain ⟨d, _, hd, herrand⟩ := h.errand hsends.1
  obtain rfl : c = d := proc2pid_inj.mp (hsends.2.symm.trans hd)
  have heff := sysSendrec_receive (hs.sole.noInt c) hcall
  have hfamily := heff.family
  have hlin := heff.linear_eq
  have hhead : (s.k.procTable c).qSending = some TASK_MM := by
    rcases hs.sole.heads c hc with hnone | hhead
    · cases heff.from_proc with
      | taken prev hfound _ _ _ => exact absurd hnone hfound.queue
      | parked hno _ _ => exact absurd hsends hno
    · exact hhead.1
  obtain ⟨htable, htaken⟩ := receive_takes hsends hhead heff
  have hmeets : ∀ b, (s.k.procTable TASK_MM).msg = b → (∀ a, InMessage b a → InTask img a) →
      receiveReceived s.k k' c (s.buf c) = [⟨TASK_MM, c, readMessage s.k.mem b⟩] := by
    intro b hb hin
    exact (receive_meets hflat (hs.sole.noInt c) hsends hhead hb
      (fun a ha hba => hown a ha (hin a hba)) hcall).2.1
  have hipc : ∀ q, q ≠ TASK_MM → SameIpc (s.k.procTable q) (k'.procTable q) := by
    intro q hq
    rw [htable]
    exact sameIpc_dequeue _ none hq
  have hcflags : (k'.procTable c).pFlags = 0 := (hipc c hc).flags.trans hready
  have hothers : ∀ q, q ≠ c → q ≠ TASK_MM → Untouched s (s.afterAwait s.k k' c) q :=
    fun q hq hqm => ⟨hipc q hqm, Function.update_of_ne hq _ _, rfl, rfl⟩
  have hreport : reports (s.waitResults k' (receiveReceived s.k k' c (s.buf c))) =
      s.unreported :=
    herrand.reports_delivered hsends.1 hcflags htaken hmeets
  have hserves : Serves img (s.afterAwait s.k k' c) := by
    refine h.serves.mono rfl (fun p => (hfamily p).1) (fun q hq => ?_) fun hpc _ => ?_
    · exact (hothers q (herrand.served_ne hq) (h.served_ne hq)).keeps
    · exact absurd hpc herrand.pc_ne
  have hfree : ¬ Sending (k'.procTable TASK_MM) := by
    rw [htable, sending_iff]
    simp [dequeue]
  have htask : (k'.procTable TASK_MM).pFlags &&& WAITING = 0 ∧
      (k'.procTable TASK_MM).pFlags &&& HANGING = 0 := by
    obtain ⟨hw, hh⟩ : (s.k.procTable TASK_MM).pFlags &&& WAITING = 0 ∧
        (s.k.procTable TASK_MM).pFlags &&& HANGING = 0 := h.task_flags (.inl rfl)
    rw [htable]
    exact ⟨clear_flag hw, clear_flag hh⟩
  refine ⟨fun p => ?_, fun x hx hxs => ?_, fun q hq => ?_, hserves, fun hts => absurd hts hfree,
    ?_, ?_⟩
  · by_cases hpm : p = TASK_MM
    · rw [hpm]
      exact htask.2
    · change (k'.procTable p).pFlags &&& HANGING = 0
      rw [(hipc p hpm).flags]
      exact h.hanging p
  · have hxs' := (hipc x hx).sending.mp hxs
    change s.buf x ≠ 0 ∧ readMessage k'.mem (linear k'.procTable x (s.buf x)) = s.request x
    rw [hlin]
    exact ⟨(h.asked x hx hxs').1, h.asked_kept hs hx hxs' hkept⟩
  · change (k'.procTable q).pFlags &&& WAITING ≠ 0 at hq
    have hqm : q ≠ TASK_MM := by
      intro hqm
      rw [hqm] at hq
      exact hq htask.1
    have hqc : q ≠ c := by
      intro hqc
      rw [hqc, hcflags] at hq
      exact hq (by decide)
    rw [(hipc q hqm).flags] at hq
    exact (h.asleep q hq).untouched (hothers q hqc hqm)
  · have hnone : (s.afterAwait s.k k' c).unreported = [] :=
      herrand.unreported_eq_nil rfl hfree
    have hall : (s.afterAwait s.k k' c).reported = s.reported ++ s.unreported := by
      rw [← hreport]
      exact reports_append _ _
    rw [hnone, List.append_nil, hall]
    exact h.results
  · exact h.freed

end Clients

end SimpleOs
