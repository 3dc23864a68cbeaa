import SimpleOs.Mm.Family

/-!
# What every state of the system has in common

Whatever the processes do, and whatever has gone wrong before: a process in use
that is in no send and no receive has its IPC fields cleared, the segments of a
process agree with each other, and the tasks and the native processes stay where
they are. This is much less than the invariant of the IPC layer, and it needs no
condition on the steps of `task_mm`.

* `mmRun_sound`: `Sound` in every state of every run.
-/

namespace SimpleOs

open ByteMem Transition

/-! ## One process -/

/-- The fields of a process agree with its flags. -/
structure Process.Tidy (p : Process) : Prop where
  idle : ¬ Sending p → p.pFlags &&& RECEIVING = 0 →
    p.msg = 0 ∧ p.pRecvfrom = NO_TASK ∧ p.pSendto = NO_TASK
  receiving : p.pFlags &&& RECEIVING ≠ 0 → p.pSendto = NO_TASK

theorem Process.Tidy.ready {p : Process} (h : p.Tidy) (hf : p.pFlags = 0) : p.Ready := by
  obtain ⟨hmsg, hrecv, hsend⟩ := h.idle (not_sending_of_flags_zero hf) (by rw [hf]; decide)
  exact ⟨hf, hmsg, hrecv, hsend⟩

theorem Process.Tidy.of_ready {p : Process} (h : p.Ready) : p.Tidy := by
  refine ⟨fun _ _ => ⟨h.msg, h.recvfrom, h.sendto⟩, fun _ => h.sendto⟩

theorem Process.Tidy.congr {p q : Process} (h : p.Tidy)
    (hs : q.pFlags.getLsbD 1 = p.pFlags.getLsbD 1) (hr : q.pFlags.getLsbD 2 = p.pFlags.getLsbD 2)
    (hmsg : q.msg = p.msg) (hrecv : q.pRecvfrom = p.pRecvfrom) (hsend : q.pSendto = p.pSendto) :
    q.Tidy := by
  have hsending : Sending q ↔ Sending p := by rw [sending_iff, sending_iff, hs]
  have hreceiving : q.pFlags &&& RECEIVING ≠ 0 ↔ p.pFlags &&& RECEIVING ≠ 0 := by
    rw [receiving_iff, receiving_iff, hr]
  refine ⟨fun h1 h2 => ?_, fun h1 => ?_⟩
  · rw [hmsg, hrecv, hsend]
    refine h.idle (fun hc => h1 (hsending.mpr hc)) ?_
    by_contra hc
    exact hreceiving.mpr hc h2
  · rw [hsend]
    exact h.receiving (hreceiving.mp h1)

theorem Process.Tidy.of_sameIpc {p q : Process} (h : p.Tidy) (hipc : SameIpc p q) : q.Tidy :=
  h.congr (by rw [hipc.flags]) (by rw [hipc.flags]) hipc.msg hipc.recvfrom hipc.sendto

/-- The two segments of a process agree, as `do_fork` asserts (mm/mm.c:162). -/
def SegsAgree (code data : Descriptor) : Prop :=
  segBase code = segBase data ∧ segLimit code = segLimit data ∧
    segSize (segLimit code) code = segSize (segLimit code) data

instance (code data : Descriptor) : Decidable (SegsAgree code data) :=
  inferInstanceAs (Decidable (_ ∧ _))

/-! ## The table -/

/-- What holds of every table. -/
structure SoundTable (t : ProcTable) : Prop where
  noInt : ∀ p, (t p).hasIntMsg = 0
  flat : NativeFlat t
  segs : ∀ p, SegsAgree (t p).ldtCode (t p).ldtData
  native : ∀ p, ¬ Forkable p → Occupied (t p)
  orphans : NativeOrphans t
  tidy : ∀ p, Occupied (t p) → (t p).Tidy

/-- A change of the flags and the IPC fields of processes in use. -/
theorem SoundTable.change {t t' : ProcTable} (h : SoundTable t)
    (hint : ∀ p, (t' p).hasIntMsg = (t p).hasIntMsg)
    (hcode : ∀ p, (t' p).ldtCode = (t p).ldtCode) (hslots : SameSlots t t')
    (htidy : ∀ p, (t p).Tidy → (t' p).Tidy) : SoundTable t' := by
  refine ⟨fun p => (hint p).trans (h.noInt p), fun p hp => ?_, fun p => ?_, fun p hp => ?_,
    fun p hp => ?_, fun p hp => htidy p (h.tidy p ((hslots.occupied p).mp hp))⟩
  · rw [hslots.ldtData]
    exact h.flat p hp
  · rw [hcode, hslots.ldtData]
    exact h.segs p
  · exact (hslots.occupied p).mpr (h.native p hp)
  · exact (hslots.parent p).trans (h.orphans p hp)

/-- A change of one flag of `q` that is not an IPC flag. -/
theorem tidy_flags {t t' : ProcTable} (q : Pid) (f : BitVec 32 → BitVec 32)
    (hs : (f (t q).pFlags).getLsbD 1 = (t q).pFlags.getLsbD 1)
    (hr : (f (t q).pFlags).getLsbD 2 = (t q).pFlags.getLsbD 2)
    (hf : ∀ p, (t' p).pFlags = if p = q then f (t p).pFlags else (t p).pFlags)
    (hmsg : ∀ p, (t' p).msg = (t p).msg) (hrecv : ∀ p, (t' p).pRecvfrom = (t p).pRecvfrom)
    (hsend : ∀ p, (t' p).pSendto = (t p).pSendto) (p : Pid) (h : (t p).Tidy) : (t' p).Tidy := by
  refine h.congr ?_ ?_ (hmsg p) (hrecv p) (hsend p)
  · rw [hf]
    split_ifs with hp
    · rw [hp, hs]
    · rfl
  · rw [hf]
    split_ifs with hp
    · rw [hp, hr]
    · rfl

section Calls

variable {k k' : Machine}

theorem SendOutcome.soundTable {s d : Pid} {m : Addr} (h : SendOutcome k s d m k')
    (hI : SoundTable k.procTable) : SoundTable k'.procTable := by
  cases h with
  | deliver _ _ hflags hsendto =>
    refine hI.change (fun _ => rfl) (fun _ => rfl) (sameSlots_deliver _ d) fun p hp => ?_
    by_cases hpd : p = d
    · subst hpd
      exact Process.Tidy.of_ready (ready_deliver hflags hsendto)
    · exact hp.of_sameIpc (sameIpc_deliver _ hpd)
  | enqueue _ hflags tail _ r =>
    refine hI.change (fun _ => rfl) (fun _ => rfl) (sameSlots_enqueue _ s d m tail) fun p hp => ?_
    by_cases hps : p = s
    · subst hps
      have hsent : (SimpleOs.enqueue k.procTable p d m tail p).pFlags = SENDING := by
        simpa [SimpleOs.enqueue] using hflags
      refine ⟨fun hc => absurd ?_ hc, fun hc => absurd ?_ hc⟩
      · rw [Sending, hsent]
        decide
      · rw [hsent]
        decide
    · exact hp.of_sameIpc (sameIpc_enqueue _ m tail hps)

theorem ReceiveOutcome.soundTable {w : Pid} {src : ℤ} {m : Addr} (h : ReceiveOutcome k w src m k')
    (hI : SoundTable k.procTable) (hw : (k.procTable w).pFlags = 0) : SoundTable k'.procTable := by
  cases h with
  | interrupt hint => exact absurd (hI.noInt w) hint
  | take f prev _ hfound _ =>
    refine hI.change (fun _ => rfl) (fun _ => rfl) (sameSlots_dequeue _ w f prev) fun p hp => ?_
    by_cases hpf : p = f
    · subst hpf
      exact Process.Tidy.of_ready (ready_dequeue w prev hfound.fromFlags hfound.fromRecvfrom)
    · exact hp.of_sameIpc (sameIpc_dequeue _ prev hpf)
  | wait _ _ r =>
    refine hI.change (fun _ => rfl) (fun _ => rfl) (sameSlots_park _ w src m) fun p hp => ?_
    by_cases hpw : p = w
    · subst hpw
      have hparked : (park k.procTable p src m p).pFlags = RECEIVING := park_flags src m hw
      refine ⟨fun _ hc => ?_, fun _ => (hp.ready hw).sendto⟩
      rw [hparked] at hc
      exact absurd hc (by decide)
    · exact hp.of_sameIpc (sameIpc_park _ src m hpw)

theorem sysSendrec_soundTable {p : Pid} {function srcDest : ℤ} {m : Addr}
    (hI : SoundTable k.procTable) (hp : (k.procTable p).pFlags = 0)
    (h : sysSendrec k function srcDest m p = .ok k') : SoundTable k'.procTable := by
  rcases sysSendrec_outcome h with ⟨d, _, _, _, _, hout⟩ | ⟨_, _, hout⟩
  · exact hout.soundTable (k := stampSource k p m) hI
  · exact hout.soundTable (k := stampSource k p m) hI hp

/-- A call that returns was made outside an interrupt handler, and leaves
    `k_reenter` alone. -/
theorem sysSendrec_kReenter {p : Pid} {function srcDest : ℤ} {m : Addr}
    (h : sysSendrec k function srcDest m p = .ok k') : k.kReenter = 0 ∧ k'.kReenter = 0 := by
  have hzero : k.kReenter = 0 := by
    unfold sysSendrec at h
    exact (assert_bind_eq_ok.mp h).1
  refine ⟨hzero, ?_⟩
  rcases sysSendrec_outcome h with ⟨d, _, _, _, _, hout⟩ | ⟨_, _, hout⟩
  · cases hout with
    | deliver => exact hzero
    | enqueue => exact hzero
  · cases hout with
    | interrupt => exact hzero
    | take => exact hzero
    | wait => exact hzero

end Calls

/-! ## The steps of `task_mm` -/

section Tables

variable {t : ProcTable}

/-- The flags of process management are none of the IPC layer's. -/
theorem SoundTable.flags {t' : ProcTable} (h : SoundTable t) (q : Pid) (f : BitVec 32 → BitVec 32)
    (hs : (f (t q).pFlags).getLsbD 1 = (t q).pFlags.getLsbD 1)
    (hr : (f (t q).pFlags).getLsbD 2 = (t q).pFlags.getLsbD 2) (hslots : SameSlots t t')
    (hf : ∀ p, (t' p).pFlags = if p = q then f (t p).pFlags else (t p).pFlags)
    (hint : ∀ p, (t' p).hasIntMsg = (t p).hasIntMsg)
    (hcode : ∀ p, (t' p).ldtCode = (t p).ldtCode) (hmsg : ∀ p, (t' p).msg = (t p).msg)
    (hrecv : ∀ p, (t' p).pRecvfrom = (t p).pRecvfrom)
    (hsend : ∀ p, (t' p).pSendto = (t p).pSendto) : SoundTable t' :=
  h.change hint hcode hslots (tidy_flags q f hs hr hf hmsg hrecv hsend)

theorem SoundTable.fork (h : SoundTable t) (pid : Pid) {child : Pid} (hchild : Forkable child) :
    SoundTable (forkTable t pid child) := by
  have hother : ∀ p, ¬ Forkable p → forkTable t pid child p = t p := by
    intro p hp
    exact forkTable_of_ne _ _ fun heq => hp (heq ▸ hchild)
  refine ⟨fun p => ?_, fun p hp => ?_, fun p => ?_, fun p hp => ?_, fun p hp => ?_, fun p hp => ?_⟩
  · by_cases hpc : p = child
    · subst hpc
      rw [forkTable_self]
      exact h.noInt pid
    · rw [forkTable_of_ne _ _ hpc]
      exact h.noInt p
  · have hnot : ¬ Forkable p := by
      unfold Forkable proc2pid at *
      omega
    rw [hother p hnot]
    exact h.flat p hp
  · by_cases hpc : p = child
    · subst hpc
      rw [forkTable_self]
      change SegsAgree (initDescriptor childBase _ _) (initDescriptor childBase _ _)
      decide
    · rw [forkTable_of_ne _ _ hpc]
      exact h.segs p
  · rw [hother p hp]
    exact h.native p hp
  · rw [hother p hp]
    exact h.orphans p hp
  · by_cases hpc : p = child
    · subst hpc
      rw [forkTable_self] at hp ⊢
      have htidy := h.tidy pid hp
      exact htidy.congr rfl rfl rfl rfl rfl
    · rw [forkTable_of_ne _ _ hpc] at hp ⊢
      exact h.tidy p hp

theorem SoundTable.free (h : SoundTable t) {proc : Pid} (hproc : Forkable proc) :
    SoundTable (freeSlot t proc) := by
  refine ⟨h.noInt, h.flat, h.segs, fun p hp => ?_, h.orphans, fun p hp => ?_⟩
  · exact occupied_freeSlot.mpr ⟨fun heq => hp (heq ▸ hproc), h.native p hp⟩
  · obtain ⟨hne, hocc⟩ := occupied_freeSlot.mp hp
    refine (h.tidy p hocc).congr ?_ ?_ rfl rfl rfl
    · simp [freeSlot, hne]
    · simp [freeSlot, hne]

end Tables

/-- What holds of every state. -/
structure Sound (s : MmState) : Prop where
  table : SoundTable s.k.procTable
  /-- `task_mm` has made a system call, unless it is at the start of its loop. -/
  kReenter : s.pc ≠ .receive → s.k.kReenter = 0
  freeing : ∀ proc, s.pc.freeing = some proc → Forkable proc

section Steps

variable {img : MmImage} {k k' : Machine} {pc pc' : MmPc}

theorem MmOutcome.soundTable (h : MmOutcome img k pc k' pc') (hI : Sound ⟨k, pc⟩)
    (hready : (k.procTable TASK_MM).pFlags = 0) : SoundTable k'.procTable := by
  have ht : SoundTable k.procTable := hI.table
  cases h with
  | receive h =>
    exact h.soundTable (k := stampSource (clearMmMsg img k) TASK_MM img.mmMsg) ht hready
  | forkNone => exact ht
  | fork pid child used _ _ _ hchild => exact ht.fork pid hchild
  | exitWaited pid parent =>
    exact ht.flags parent (· &&& ~~~WAITING) (by simp) (by simp)
      (sameSlots_exitWaited _ pid parent _) (fun _ => rfl) (fun _ => rfl) (fun _ => rfl)
      (fun _ => rfl) (fun _ => rfl) fun _ => rfl
  | exitHanging pid parent =>
    exact ht.flags parent (· ||| HANGING) (by simp) (by simp)
      (sameSlots_exitHanging _ pid parent _) (fun _ => rfl) (fun _ => rfl) (fun _ => rfl)
      (fun _ => rfl) (fun _ => rfl) fun _ => rfl
  | waitHanging => exact ht
  | waitChildren pid =>
    exact ht.flags pid (· ||| WAITING) (by simp) (by simp) (sameSlots_setWaiting _ pid)
      (fun _ => rfl) (fun _ => rfl) (fun _ => rfl) (fun _ => rfl) (fun _ => rfl) fun _ => rfl
  | waitChildless => exact ht
  | exec pid mem used entry =>
    refine ht.change (fun _ => rfl) (fun _ => rfl)
      ⟨fun _ => Iff.rfl, fun _ => rfl, fun _ => rfl⟩ fun p hp => ?_
    exact hp.congr rfl rfl rfl rfl rfl
  | forkSend _ _ h => exact h.outcome.soundTable ht
  | cleanupSend _ _ _ _ h => exact h.outcome.soundTable ht
  | cleanupFree proc ret => exact ht.free (hI.freeing proc rfl)
  | scanFound =>
    exact ht.flags INIT (· &&& ~~~WAITING) (by simp) (by simp) (sameSlots_clearWaiting _ INIT)
      (fun _ => rfl) (fun _ => rfl) (fun _ => rfl) (fun _ => rfl) (fun _ => rfl) fun _ => rfl
  | scanDone => exact ht
  | waitNone _ h => exact h.outcome.soundTable ht
  | reply _ _ h => exact h.outcome.soundTable ht

/-- `cleanup` has found the parent of the slot it frees. -/
theorem MmOutcome.freeing (h : MmOutcome img k pc k' pc') (hI : Sound ⟨k, pc⟩) (proc : Pid)
    (hproc : pc'.freeing = some proc) : Forkable proc := by
  cases h with
  | cleanupSend proc' parent ret hparent _ =>
    obtain rfl := Option.some.inj hproc
    by_contra hnot
    rw [hI.table.orphans _ hnot] at hparent
    exact absurd hparent.symm (proc2pid_ne_noTask parent)
  | cleanupFree proc' ret => cases ret <;> cases hproc
  | _ => cases hproc

theorem SendOutcome.kReenter {s d : Pid} {m : Addr} (h : SendOutcome k s d m k') :
    k'.kReenter = k.kReenter := by
  cases h with
  | deliver => rfl
  | enqueue => rfl

/-- No step of `task_mm` changes `k_reenter`; the one that leaves the start of the
    loop is a call. -/
theorem mmStep_kReenter {eax : BitVec 32} (hI : Sound ⟨k, pc⟩)
    (h : mmStep img eax k pc = .ok (k', pc')) : k'.kReenter = 0 := by
  by_cases hpc : pc = .receive
  · subst hpc
    simp only [mmStep, bind_eq_ok, Except.ok.injEq, Prod.mk.injEq] at h
    obtain ⟨k₁, hcall, rfl, _⟩ := h
    exact (sysSendrec_kReenter hcall).2
  · have hzero : k.kReenter = 0 := hI.kReenter hpc
    cases mmStep_outcome h with
    | receive => exact absurd rfl hpc
    | forkSend _ _ hsent => exact hsent.outcome.kReenter.trans hzero
    | cleanupSend _ _ _ _ hsent => exact hsent.outcome.kReenter.trans hzero
    | waitNone _ hsent => exact hsent.outcome.kReenter.trans hzero
    | reply _ _ hsent => exact hsent.outcome.kReenter.trans hzero
    | _ => exact hzero

end Steps

theorem Sound.step {img : MmImage} {C : MmState → Prop} {s s' : MmState} (h : Sound s)
    (hs : MmSysStep img C s s') : Sound s' := by
  cases hs with
  | user p _ _ _ _ hready hcall =>
    exact ⟨sysSendrec_soundTable h.table hready hcall, fun _ => (sysSendrec_kReenter hcall).2,
      h.freeing⟩
  | task eax _ hready hstep =>
    have hout := mmStep_outcome hstep
    exact ⟨hout.soundTable h hready, fun _ => mmStep_kReenter h hstep, hout.freeing h⟩
  | other htable hk =>
    refine ⟨?_, fun hpc => hk.trans (h.kReenter hpc), h.freeing⟩
    dsimp only
    rw [htable]
    exact h.table

theorem segsAgree_nativeLdt : ∀ i : Pid, i.val < NR_TASKS + NR_NATIVE_PROCS →
    SegsAgree (nativeLdt i).1 (nativeLdt i).2 := by
  decide

theorem MmBooted.sound {img : Image} {s : MmState} (h : MmBooted img s) : Sound s := by
  have htable : s.k.procTable = initProc img := h.1
  have hquiet := h.1.quiescent
  refine ⟨⟨fun p => (hquiet.idle p).hasIntMsg, hquiet.flat, fun p => ?_, fun p hp => ?_,
    fun p hp => ?_, fun p hp => ?_⟩, fun hpc => absurd h.2 hpc, fun proc hproc => ?_⟩
  · rw [htable]
    unfold initProc initSlot
    by_cases hp : p.val ≥ NR_TASKS + NR_NATIVE_PROCS
    · rw [if_pos hp]
      change SegsAgree Descriptor.zero Descriptor.zero
      decide
    · rw [if_neg hp]
      exact segsAgree_nativeLdt p (by omega)
  · have hlt : ¬ p.val ≥ NR_TASKS + NR_NATIVE_PROCS := hp
    rw [htable, initProc, initSlot, if_neg hlt]
    exact occupied_of_ready rfl
  · have hlt : ¬ p.val ≥ NR_TASKS + NR_NATIVE_PROCS := hp
    rw [htable, initProc, initSlot, if_neg hlt]
  · have hidle := hquiet.idle p
    have hready : (s.k.procTable p).pFlags = 0 := by
      rcases hidle.flags with hf | hf
      · exact hf
      · exact absurd hp (not_occupied_of_free hf)
    exact .of_ready ⟨hready, hidle.msg hready, hidle.recvfrom hready, hidle.sendto hready⟩
  · rw [h.2] at hproc
    cases hproc

/-- Every state of every run. -/
theorem mmRun_sound {img : Image} {mimg : MmImage} {C : MmState → Prop} {s : MmState}
    (h : Reachable (MmBooted img) (MmSysStep mimg C) s) : Sound s :=
  h.invariant (fun _ h0 => h0.sound) fun _ _ hI hs => hI.step hs

end SimpleOs
