import SimpleOs.Kernel.Init
import SimpleOs.Kernel.Schedule
import SimpleOs.Kernel.Switch
import SimpleOs.Lib.WordSum

/-!
# Processes share the processor

What the frames in the process table mean for a process: where it starts, where it goes on
after it has left the processor, and what the clock does to it.

* `context_resumes`: a process goes on with the registers with which it left.
* `context_starts`: the first turn of a native process is at its entry point, on its own stack.
* `clock_shares`: when only the clock interrupts, the processes that can run take turns.
-/

namespace SimpleOs

namespace Context

open ByteMem WordStack Transition RoundRobin

/-! ## Away from the processor -/

/-- A step in which `p` does not run and nobody writes its slot. -/
def Away (img : Image) (p : Pid) (e : Event × Set Pid) (s s' : State) : Prop :=
  Step img e s s' ∧ s.readyProcess ≠ img.slot p ∧ p ∉ e.2

/-- The registers that the running process has left when it comes back. -/
def Event.leaves : Event → Regs → Regs
  | .sysCall _ _ _ _ _ result, r => { r with eax := result }
  | _, r => r

section

variable {img : Image} {p : Pid} {s s' : State} {v v' : Virtual} {e : Event × Set Pid}
  {l : List (Event × Set Pid)}

/-- Others' steps. -/
theorem VirtualStep.away (h : VirtualStep e v v') (hp : v.running ≠ p) (hW : p ∉ e.2) :
    v'.regs p = v.regs p ∧ v'.ldt p = v.ldt p := by
  have hset : ∀ r, (v.setRegs r).regs p = v.regs p := by
    intro r
    show Function.update v.regs v.running r p = v.regs p
    rw [Function.update_of_ne (Ne.symm hp)]
  cases h with
  | ran r _ h => exact ⟨(h p hW).1.trans (hset r), (h p hW).2⟩
  | irq n h => exact h p hW
  | sysCall result h => exact ⟨(h p hW).1.trans (hset _), (h p hW).2⟩

/-- The step with which the running process leaves. -/
theorem VirtualStep.leaves (h : VirtualStep e v v') (hran : e.1 ≠ .ran) (hW : v.running ∉ e.2) :
    v'.regs v.running = e.1.leaves (v.regs v.running) ∧ v'.ldt v.running = v.ldt v.running := by
  cases h with
  | ran r _ h => exact absurd rfl hran
  | irq n h => exact h v.running hW
  | sysCall result h =>
    refine ⟨(h v.running hW).1.trans ?_, (h v.running hW).2⟩
    exact Function.update_self ..

theorem Refines.away (h : Refines img s v) (hrun : Run (Away img p) l s s') :
    ∃ v', Refines img s' v' ∧ v'.regs p = v.regs p ∧ v'.ldt p = v.ldt p := by
  induction hrun generalizing v with
  | nil s => exact ⟨v, h, rfl, rfl⟩
  | cons hs _ ih =>
    obtain ⟨hstep, hp, hW⟩ := hs
    obtain ⟨v₁, hv, href⟩ := h.step hstep
    have hne : v.running ≠ p := fun heq => hp (heq ▸ h.readyProcess)
    obtain ⟨hregs, hldt⟩ := hv.away hne hW
    obtain ⟨v', href', hregs', hldt'⟩ := ih href
    exact ⟨v', href', hregs'.trans hregs, hldt'.trans hldt⟩

/-- The turn of `p` has come. -/
theorem Refines.turn (h : Refines img s v) (hp : s.readyProcess = img.slot p) :
    s.regs = v.regs p ∧ s.ldtr = v.ldt p := by
  have hrun : v.running = p := img.slot_injective (h.readyProcess.symm.trans hp)
  subst hrun
  exact ⟨h.regs, h.ldtr⟩

end

/-- A state that is reached after the `restart` of `kernel_main`. -/
def Reached (img : Image) (s : State) : Prop :=
  ∃ s₀ p l, s₀.kReenter = 0 ∧ s₀.readyProcess = img.slot p ∧
    ¬ (frameAt s₀.mem (img.slot p)).Ring0 ∧ Run (Step img) l (restart s₀) s

theorem Reached.refines {img : Image} {s : State} (h : Reached img s) : ∃ v, Refines img s v := by
  obtain ⟨s₀, p, l, hk, hp, hring, hrun⟩ := h
  have hstart : Refines img (restart s₀) (tableView img s₀.mem p) := by
    rw [restart_user (hp ▸ hring)]
    exact State.resume_refines hk hp hring
  have hstep : ∀ e s s' v, Refines img s v → Step img e s s' →
      ∃ v', VirtualStep e v v' ∧ Refines img s' v' := fun _ _ _ _ ht hs => ht.step hs
  obtain ⟨v, -, href⟩ := hrun.simulate hstep hstart
  exact ⟨v, href⟩

/-- A process that has been interrupted, or has made a system call, goes on with the registers
    that it had, or with these and the result, whatever the others have done in the meantime. -/
theorem context_resumes {img : Image} {p : Pid} {s s₁ s' : State} {e : Event} {W : Set Pid}
    {l : List (Event × Set Pid)} (h : Reached img s) (hp : s.readyProcess = img.slot p)
    (hran : e ≠ .ran) (hW : p ∉ W) (hleave : Step img (e, W) s s₁)
    (haway : Run (Away img p) l s₁ s') (hback : s'.readyProcess = img.slot p) :
    s'.regs = e.leaves s.regs ∧ s'.ldtr = s.ldtr := by
  obtain ⟨v, href⟩ := h.refines
  have hrun : v.running = p := img.slot_injective (href.readyProcess.symm.trans hp)
  subst hrun
  obtain ⟨v₁, hv, href₁⟩ := href.step hleave
  obtain ⟨hregs, hldt⟩ := hv.leaves hran hW
  obtain ⟨v', href', hregs', hldt'⟩ := href₁.away haway
  obtain ⟨hturn, hturnldt⟩ := href'.turn hback
  rw [hturn, hturnldt, hregs', hldt', hregs, hldt, href.regs, href.ldtr]
  exact ⟨rfl, rfl⟩

theorem sample_reached : Reached sampleImage (restart sampleState) :=
  ⟨sampleState, 0, [], rfl, rfl, by decide, .nil _⟩

/-- The clock has interrupted process 1 and made process 0 ready again. -/
def sampleBack : State :=
  let s := hwintIn sampleImage 0 (sysCallOut sampleImage sampleReturn)
  { s with readyProcess := sampleImage.slot 0 }

theorem context_resumes_sample :
    (hwintOut sampleImage sampleBack).regs = { (restart sampleState).regs with eax := 7 } ∧
      (hwintOut sampleImage sampleBack).ldtr = (restart sampleState).ldtr :=
  context_resumes (p := 0) (W := ∅) sample_reached rfl Event.noConfusion (Set.notMem_empty _)
    sample_step
    (.cons ⟨@Step.irq sampleImage ∅ _ sampleBack 0 0 ⟨rfl, rfl, rfl, fun _ _ _ => rfl⟩
      (fun _ _ _ _ => rfl) rfl (by decide), by decide, Set.notMem_empty _⟩
      (.nil _)) (by decide)

/-! ## The first turn -/

/-- The registers of a frame of the table. -/
def ofFrame (f : StackFrame) : Regs where
  gs := f.gs.setWidth 16
  fs := f.fs.setWidth 16
  es := f.es.setWidth 16
  ds := f.ds.setWidth 16
  edi := f.edi
  esi := f.esi
  ebp := f.ebp
  ebx := f.ebx
  edx := f.edx
  ecx := f.ecx
  eax := f.eax
  eip := f.eip
  cs := f.cs.setWidth 16
  eflags := f.eflags
  esp := f.esp
  ss := f.ss.setWidth 16

/-- The bytes of the process table are those of `t`, as far as the way in and out reads them. -/
def Lies (img : Image) (mem : Mem) (t : ProcTable) : Prop :=
  ∀ p, frameAt mem (img.slot p) = ofFrame (t p).regs ∧
    ldtSel mem (img.slot p) = (t p).ldtSel

theorem nativeRegs_user (image : SimpleOs.Image) {p : Pid}
    (hp : p.val < NR_TASKS + NR_NATIVE_PROCS) : ¬ (ofFrame (nativeRegs image p)).Ring0 := by
  have hcs : ∀ q : Pid, q.val < NR_TASKS + NR_NATIVE_PROCS →
      ((((0 &&& 0xfff8) ||| 4 ||| BitVec.ofNat 32 (privilege q) : BitVec 32)).setWidth
        16).extractLsb' 0 2 ≠ 0 := by decide
  exact hcs p hp

/-- `kernel_main` (start.c:544-559) has called `init_proc` and starts the first process. Each
    native process has its first turn at its entry point, in the ring of its kind, on its own
    stack and with its own descriptor table. -/
theorem context_starts {img : Image} {image : SimpleOs.Image} {p : Pid} {s s' : State}
    {l : List (Event × Set Pid)} (hp : p.val < NR_TASKS + NR_NATIVE_PROCS)
    (hk : s.kReenter = 0) (hready : s.readyProcess = img.slot 0)
    (htable : Lies img s.mem (initProc image)) (haway : Run (Away img p) l (restart s) s')
    (hturn : s'.readyProcess = img.slot p) :
    s'.regs = ofFrame (nativeRegs image p) ∧ s'.ldtr = ldtSelector p := by
  have hinit : ∀ q : Pid, q.val < NR_TASKS + NR_NATIVE_PROCS →
      (initProc image q).regs = nativeRegs image q ∧ (initProc image q).ldtSel = ldtSelector q := by
    intro q hq
    unfold initProc initSlot
    rw [if_neg (by omega)]
    exact ⟨rfl, rfl⟩
  have hring : ¬ (frameAt s.mem (img.slot 0)).Ring0 := by
    rw [(htable 0).1, (hinit 0 (by decide)).1]
    exact nativeRegs_user image (by decide)
  have hstart : Refines img (restart s) (tableView img s.mem 0) := by
    rw [restart_user (hready ▸ hring)]
    exact State.resume_refines hk hready hring
  obtain ⟨v, href, hregs, hldt⟩ := hstart.away haway
  obtain ⟨hturnregs, hturnldt⟩ := href.turn hturn
  rw [hturnregs, hturnldt, hregs, hldt, ← (hinit p hp).1, ← (hinit p hp).2]
  exact htable p

theorem Image.slot_offset (img : Image) (p : Pid) {i : ℕ} (hi : i < 168) :
    (img.slot p + BitVec.ofNat 32 i - img.procTable).toNat = 168 * p.val + i := by
  have hp := p.isLt
  have heq : img.slot p + BitVec.ofNat 32 i - img.procTable = BitVec.ofNat 32 (168 * p.val + i) := by
    unfold Image.slot
    rw [BitVec.ofNat_add]
    generalize BitVec.ofNat 32 (168 * p.val) = x
    bv_omega
  rw [heq, BitVec.toNat_ofNat, Nat.mod_eq_of_lt (by omega)]

/-- The bytes of a table. -/
def tableMem (img : Image) (t : ProcTable) : Mem := fun a =>
  let i := (a - img.procTable).toNat
  let p := t (Fin.ofNat 35 (i / 168))
  let l := ((ofFrame p.regs).words 0 0) ++ [p.ldtSel.setWidth 32]
  (l.getD (i % 168 / 4) 0).extractLsb' (8 * (i % 4)) 8

/-- The words of a slot. -/
theorem tableMem_word (img : Image) (t : ProcTable) (p : Pid) {i : ℕ} {w : BitVec 32}
    (hi : ((ofFrame (t p).regs).words 0 0 ++ [(t p).ldtSel.setWidth 32])[i]? = some w) {j : ℕ}
    (hj : j < 4) :
    tableMem img t (img.slot p + BitVec.ofNat 32 (4 * i + j)) = w.extractLsb' (8 * j) 8 := by
  obtain ⟨hlt, -⟩ := List.getElem?_eq_some_iff.mp hi
  have hlt' : i < 19 := by simpa [Regs.words] using hlt
  have hslot : (168 * p.val + (4 * i + j)) / 168 = p.val := by omega
  have hword : (168 * p.val + (4 * i + j)) % 168 / 4 = i := by omega
  have hbyte : (168 * p.val + (4 * i + j)) % 4 = j := by omega
  have hpid : Fin.ofNat 35 p.val = p := Fin.ofNat_val_eq_self p
  unfold tableMem
  dsimp only
  rw [img.slot_offset p (by omega), hslot, hword, hbyte, hpid, List.getD_eq_getElem?_getD, hi,
    Option.getD_some]

theorem readWord_of_bytes {mem : Mem} {a : Addr} {w : BitVec 32}
    (h : ∀ j < 4, mem (a + BitVec.ofNat 32 j) = w.extractLsb' (8 * j) 8) : readWord mem a = w := by
  have h0 := h 0 (by omega)
  have h1 := h 1 (by omega)
  have h2 := h 2 (by omega)
  have h3 := h 3 (by omega)
  rw [BitVec.add_zero] at h0
  unfold readWord
  rw [h0, show mem (a + 1) = _ from h1, show mem (a + 2) = _ from h2, show mem (a + 3) = _ from h3]
  exact WordSum.append_wordBytes w

theorem tableMem_lies (img : Image) (t : ProcTable) : Lies img (tableMem img t) t := by
  intro p
  constructor
  · have hwords : WordsAt (tableMem img t) (img.slot p) ((ofFrame (t p).regs).words 0 0) := by
      apply WordsAt.of_word
      intro i w hi
      obtain ⟨hlt, -⟩ := List.getElem?_eq_some_iff.mp hi
      refine readWord_of_bytes fun j hj => ?_
      rw [BitVec.add_assoc, ← BitVec.ofNat_add]
      exact tableMem_word img t p ((List.getElem?_append_left hlt).trans hi) hj
    exact frameAt_words hwords
  · have hbyte : ∀ j < 4, tableMem img t (img.slot p + BitVec.ofNat 32 (4 * 18 + j)) =
        ((t p).ldtSel.setWidth 32).extractLsb' (8 * j) 8 := fun j hj => tableMem_word img t p rfl hj
    have h0 : tableMem img t (img.slot p + 72) = _ := hbyte 0 (by omega)
    have h1 : tableMem img t (img.slot p + 73) = _ := hbyte 1 (by omega)
    unfold ldtSel
    rw [h0, h1]
    generalize (t p).ldtSel = x
    apply BitVec.eq_of_getLsbD_eq
    intro i hi
    simp only [BitVec.getLsbD_append, BitVec.getLsbD_extractLsb', BitVec.getLsbD_setWidth]
    by_cases hlow : i < 8
    · simp [hlow, show i < 32 by omega]
    · simp [hlow, show i - 8 < 8 by omega, show 8 + (i - 8) = i by omega, show i < 32 by omega]

def startState : State :=
  { sampleState with mem := tableMem sampleImage (initProc SimpleOs.sampleImage) }

/-- The clock has interrupted the first process and made the second one ready. -/
def startTick : State :=
  let s := hwintIn sampleImage 0 (restart startState)
  { s with readyProcess := sampleImage.slot 1 }

theorem start_lies : Lies sampleImage startState.mem (initProc SimpleOs.sampleImage) :=
  tableMem_lies _ _

theorem context_starts_sample :
    (hwintOut sampleImage startTick).regs = ofFrame (nativeRegs SimpleOs.sampleImage 1) ∧
      (hwintOut sampleImage startTick).ldtr = ldtSelector 1 :=
  context_starts (p := 1) (by decide) rfl rfl start_lies
    (.cons ⟨@Step.irq sampleImage ∅ _ startTick 1 0 ⟨rfl, rfl, rfl, fun _ _ _ => rfl⟩
      (fun _ _ _ _ => rfl) rfl (by decide), by decide, Set.notMem_empty _⟩
      (.nil _)) (by decide)

/-! ## The clock -/

/-- `p_flags` lies 100 bytes behind the start of a slot. -/
def pFlagsAt (img : Image) (mem : Mem) (p : Pid) : BitVec 32 := readWord mem (img.slot p + 100)

/-- The machine of the scheduler is the one that `s` has in its memory. -/
structure Shows (img : Image) (s : State) (k : Machine) : Prop where
  flags : ∀ p, (k.procTable p).pFlags = pFlagsAt img s.mem p
  readyProcess : s.readyProcess = img.slot k.readyProcess
  kReenter : k.kReenter = s.kReenter.toInt

/-- An interrupt of the clock. `clock_handler` (clock.c:15-36) writes nothing in the process
    table. -/
inductive Tick (img : Image) (s : State) : State → Prop
  | handled {k m : Machine} {t : State} (hk : Shows img (hwintIn img 0 s) k)
      (hm : clockHandler k = .ok m) (ht : Returns img 1 (hwintIn img 0 s) t)
      (htable : ∀ a, InBlock img.procTable (168 * 35) a → t.mem a = (hwintIn img 0 s).mem a)
      (hready : t.readyProcess = img.slot m.readyProcess) : Tick img s (hwintOut img t)

/-- `n` turns: `s i` is the beginning of a turn and `u i` its end. The processes that can run are
    always the same. -/
structure Shares (img : Image) (runnable : Finset Pid) (n : ℕ) (s u : ℕ → State) : Prop where
  own : ∀ i < n, Step img (.ran, ∅) (s i) (u i)
  tick : ∀ i < n, Tick img (u i) (s (i + 1))
  flags : ∀ i < n, ∀ p, p ∈ runnable ↔ pFlagsAt img (u i).mem p = 0

section

variable {img : Image} {p : Pid} {s s' u t : State} {v v' : Virtual} {runnable : Finset Pid}

theorem Refines.unique (h : Refines img s v) (h' : Refines img s v') : v = v' := by
  have hrun : v.running = v'.running :=
    img.slot_injective (h.readyProcess.symm.trans h'.readyProcess)
  have hregs : v.regs = v'.regs := by
    funext p
    by_cases hp : p = v.running
    · rw [hp, ← h.regs, h'.regs, hrun]
    · rw [← h.frames p hp, h'.frames p (hrun ▸ hp)]
  exact Virtual.ext hregs (funext fun p => (h.ldts p).symm.trans (h'.ldts p)) hrun

/-- The own instructions of a process that writes no slot. -/
theorem Refines.own (h : Refines img s v) (hs : Step img (.ran, ∅) s u) :
    Refines img u (v.setRegs u.regs) := by
  obtain ⟨v', hv, href⟩ := h.step hs
  cases hv with
  | ran r hrun hspared =>
    have hr : u.regs = r := by
      rw [href.regs, hrun, (hspared v.running (Set.notMem_empty _)).1]
      exact Function.update_self ..
    have heq : v' = v.setRegs r :=
      Virtual.ext (funext fun p => (hspared p (Set.notMem_empty p)).1)
        (funext fun p => (hspared p (Set.notMem_empty p)).2) hrun
    rw [hr, ← heq]
    exact href

/-- `p_flags` is neither in a frame nor on the stack. -/
theorem InKernel.pFlags {l : List (BitVec 32)} {q : Pid} (h : InKernel img q s l t) (p : Pid) :
    pFlagsAt img t.mem p = pFlagsAt img s.mem p := by
  have hp := p.isLt
  apply readWord_congr
  intro j hj
  have haddr : img.slot p + 100 + BitVec.ofNat 32 j = img.slot p + BitVec.ofNat 32 (100 + j) := by
    rw [BitVec.ofNat_add, ← BitVec.add_assoc]
    rfl
  have hoff := img.slot_offset p (i := 100 + j) (by omega)
  rw [haddr]
  apply h.rest
  · intro hframe
    have hinq := img.slot_bounds (Nat.lt_trans hframe (by omega : 72 < 168))
    have hqp : q = p := Fin.ext (by omega)
    subst hqp
    have hsub : img.slot q + BitVec.ofNat 32 (100 + j) - img.slot q = BitVec.ofNat 32 (100 + j) := by
      rw [BitVec.add_comm, BitVec.add_sub_cancel]
    unfold InBlock at hframe
    rw [hsub, BitVec.toNat_ofNat, Nat.mod_eq_of_lt (by omega)] at hframe
    omega
  · intro hstack
    refine img.stack _ hstack ?_
    unfold InBlock
    omega

theorem Tick.refines (h : Refines img u v) (ht : Tick img u s')
    (hflags : ∀ p, p ∈ runnable ↔ pFlagsAt img u.mem p = 0) (hrun : v.running ∈ runnable)
    (hring : ∀ p ∈ runnable, ¬ (v.regs p).Ring0) :
    ∃ r, IsNext (fun p => p ∈ runnable) v.running r ∧ Refines img s' { v with running := r } := by
  cases ht with
  | @handled k m t hk hm ht htable hready =>
    have hin : InKernel img v.running u _ (hwintIn img 0 u) :=
      hwintIn_inKernel 0 h.ring h.esp0 h.kReenter
    have hrunnable : ∀ p, Runnable k.procTable p ↔ p ∈ runnable := by
      intro p
      rw [Runnable, hk.flags, hin.pFlags, ← hflags]
    have hkr : k.kReenter = 0 := by
      rw [hk.kReenter, hin.kReenter]
      rfl
    have hsame : k.readyProcess = v.running := by
      apply img.slot_injective
      rw [← hk.readyProcess, hin.readyProcess, h.readyProcess]
    obtain ⟨r, hr, hnext⟩ := clockHandler_next ⟨v.running, (hrunnable _).mpr hrun⟩
    rw [if_pos hkr, hsame, show Runnable k.procTable = fun p => p ∈ runnable from
      funext fun p => propext (hrunnable p)] at hnext
    have hm' : m.readyProcess = r := by
      rw [hr] at hm
      rw [← Except.ok.inj hm]
    rw [hm'] at hready
    have hspare : Spares img ∅ (hwintIn img 0 u).mem t.mem :=
      fun p _ a ha => htable a (img.slot_table ha)
    have hregs : ∀ p, frameAt t.mem (img.slot p) = v.regs p ∧
        ldtSel t.mem (img.slot p) = v.ldt p := fun p =>
      h.spared hin hspare r p (Set.notMem_empty p)
    have hPr : r ∈ runnable := by
      obtain ⟨-, -, -, hP, -⟩ := hnext
      exact hP
    obtain ⟨-, href⟩ := hwint_refines h 0 ht hspare hready (by
      rw [(hregs r).1]
      exact hring r hPr)
    refine ⟨r, hnext, ?_⟩
    have hview : tableView img t.mem r = { v with running := r } := by
      unfold tableView
      congr 1
      · exact funext fun p => (hregs p).1
      · exact funext fun p => (hregs p).2
    rw [← hview]
    exact href

end

section

variable {img : Image} {runnable : Finset Pid} {n i : ℕ} {s u : ℕ → State} {v : Virtual}

/-- A turn begins as in the abstract model. -/
structure Shared (img : Image) (runnable : Finset Pid) (s : State) (v : Virtual) : Prop where
  refines : Refines img s v
  running : v.running ∈ runnable
  ring : ∀ p ∈ runnable, ¬ (v.regs p).Ring0

theorem Shared.step (hv : Shared img runnable (s i) v) (h : Shares img runnable n s u)
    (hi : i < n) :
    ∃ r, IsNext (fun p => p ∈ runnable) v.running r ∧
      Shared img runnable (s (i + 1)) { v.setRegs (u i).regs with running := r } := by
  have hown := hv.refines.own (h.own i hi)
  have hring : ∀ p ∈ runnable, ¬ ((v.setRegs (u i).regs).regs p).Ring0 := by
    intro p hp
    by_cases hrun : p = v.running
    · subst hrun
      rw [show (v.setRegs (u i).regs).regs v.running = (u i).regs from Function.update_self ..]
      exact hown.ring
    · rw [show (v.setRegs (u i).regs).regs p = v.regs p from Function.update_of_ne hrun ..]
      exact hv.ring p hp
  obtain ⟨r, hnext, href⟩ := (h.tick i hi).refines hown (h.flags i hi) hv.running hring
  have hr : r ∈ runnable := by
    obtain ⟨-, -, -, hP, -⟩ := hnext
    exact hP
  exact ⟨r, hnext, href, hr, hring⟩

theorem Shares.views (h : Shares img runnable n s u) (h0 : Shared img runnable (s 0) v) :
    ∃ w : ℕ → Virtual, (∀ i ≤ n, Shared img runnable (s i) (w i)) ∧ ∀ i < n,
      IsNext (fun p => p ∈ runnable) (w i).running (w (i + 1)).running ∧
      (w (i + 1)).regs = ((w i).setRegs (u i).regs).regs := by
  have hall : ∀ i, ∃ w, i ≤ n → Shared img runnable (s i) w := by
    intro i
    induction i with
    | zero => exact ⟨v, fun _ => h0⟩
    | succ i ih =>
      obtain ⟨w, hw⟩ := ih
      by_cases hi : i < n
      · obtain ⟨r, -, hnext⟩ := (hw hi.le).step h hi
        exact ⟨_, fun _ => hnext⟩
      · exact ⟨w, fun hle => absurd hle (by omega)⟩
  choose w hw using hall
  refine ⟨w, hw, fun i hi => ?_⟩
  obtain ⟨r, hnext, hshared⟩ := (hw i hi.le).step h hi
  rw [(hw (i + 1) hi).refines.unique hshared.refines]
  exact ⟨hnext, rfl⟩

end

/-- When only the clock interrupts, and the processes that can run stay the same, each of them has
    one turn in any round of as many turns as there are such processes, and begins it with the
    registers with which it ended its last one. -/
theorem clock_shares {img : Image} {runnable : Finset Pid} {n i : ℕ} {s u : ℕ → State} {p : Pid}
    (h0 : Reached img (s 0)) (h : Shares img runnable n s u) (hp : p ∈ runnable)
    (hready : (s 0).readyProcess = img.slot p)
    (hring : ∀ q ∈ runnable, q ≠ p → ¬ (frameAt (s 0).mem (img.slot q)).Ring0)
    (hi : i + runnable.card ≤ n) :
    (∀ q ∈ runnable, ∃! j, j < runnable.card ∧ (s (i + (j + 1))).readyProcess = img.slot q) ∧
      (s (i + runnable.card)).readyProcess = (s i).readyProcess ∧
      (s (i + runnable.card)).regs = (u i).regs := by
  obtain ⟨v, href⟩ := h0.refines
  have hrun : v.running = p := img.slot_injective (href.readyProcess.symm.trans hready)
  have hfirst : Shared img runnable (s 0) v := by
    refine ⟨href, hrun ▸ hp, fun q hq => ?_⟩
    by_cases hqp : q = v.running
    · rw [hqp, ← href.regs]
      exact href.ring
    · rw [← href.frames q hqp]
      exact hring q hq (hrun ▸ hqp)
  obtain ⟨w, hw, hturn⟩ := h.views hfirst
  have hcard : (Finset.univ.filter fun q => q ∈ runnable).card = runnable.card := by
    rw [Finset.filter_univ_mem]
  have hnext : ∀ j < (Finset.univ.filter fun q => q ∈ runnable).card,
      IsNext (fun q => q ∈ runnable) (w (i + j)).running (w (i + (j + 1))).running :=
    fun j hj => (hturn (i + j) (by omega)).1
  have hslot : ∀ j ≤ n, ∀ q, (s j).readyProcess = img.slot q ↔ (w j).running = q := by
    intro j hj q
    rw [(hw j hj).refines.readyProcess]
    exact img.slot_injective.eq_iff
  obtain ⟨hagain, hothers⟩ := visits_again (s := fun j => (w (i + j)).running) hnext
    (hw i (by omega)).running
  rw [hcard] at hagain hothers
  refine ⟨fun q hq => ?_, ?_, ?_⟩
  · obtain ⟨j, ⟨hj, hrunj⟩, honly⟩ := visits_once (s := fun j => (w (i + j)).running) hnext hq
    rw [hcard] at hj honly
    refine ⟨j, ⟨hj, (hslot _ (by omega) q).mpr hrunj⟩, fun j' hj' => honly j' ⟨hj'.1, ?_⟩⟩
    exact (hslot _ (by omega) q).mp hj'.2
  · rw [(hw i (by omega)).refines.readyProcess, hslot _ hi]
    exact hagain
  · -- between its two turns the registers of the process stay in its slot
    have hkept : ∀ j, 0 < j → j ≤ runnable.card →
        (w (i + j)).regs (w i).running = (u i).regs := by
      intro j hj hle
      induction j with
      | zero => omega
      | succ j ih =>
        rw [show i + (j + 1) = i + j + 1 from rfl, (hturn (i + j) (by omega)).2]
        by_cases hzero : j = 0
        · subst hzero
          exact Function.update_self ..
        · rw [← ih (by omega) (by omega)]
          exact Function.update_of_ne (Ne.symm (hothers j (by omega) (by omega))) ..
    have hpos : 0 < runnable.card := Finset.card_pos.mpr ⟨p, hp⟩
    rw [(hw (i + runnable.card) hi).refines.regs, hagain]
    exact hkept _ hpos le_rfl

/-- A turn in which the process changes nothing. -/
theorem Step.idle {img : Image} {W : Set Pid} {s : State} {p : Pid}
    (hp : s.readyProcess = img.slot p) (hW : p ∉ W) (hring : ¬ s.regs.Ring0) :
    Step img (.ran, W) s s :=
  Step.ran s.regs s.mem hp hW hring fun _ _ _ _ => rfl

theorem Returns.pick (img : Image) (n : ℕ) (s : State) (a : Addr) :
    Returns img n s { s with readyProcess := a } := ⟨rfl, rfl, rfl, fun _ _ _ => rfl⟩

/-- An interrupt of the clock that only picks the next process. -/
theorem Tick.pick {img : Image} {s : State} {k m : Machine} {a : Addr}
    (hk : Shows img (hwintIn img 0 s) k) (hm : clockHandler k = .ok m)
    (ha : a = img.slot m.readyProcess) :
    Tick img s (hwintOut img { hwintIn img 0 s with readyProcess := a }) :=
  .handled hk hm (.pick img 1 _ a) (fun _ _ => rfl) ha

/-- Slots 0 and 1 can run; every other byte is 1. -/
def shareMem : Mem := fun a =>
  let i := (a - sampleImage.procTable).toNat
  if i / 168 < 2 ∧ i % 168 / 4 = 25 then 0 else 1

def shareTurn : ℕ → State
  | 0 => restart { sampleState with mem := shareMem }
  | i + 1 =>
    let s := hwintIn sampleImage 0 (shareTurn i)
    hwintOut sampleImage { s with readyProcess := sampleImage.slot (Fin.ofNat 35 ((i + 1) % 2)) }

def shareMachine (p : Pid) : Machine :=
  { bootMachine SimpleOs.sampleImage with
    procTable := fun q => { Process.zero with pFlags := if q.val < 2 then 0 else 0x01010101 }
    readyProcess := p
    kReenter := 0 }

theorem share_in (i : ℕ) (hi : i < 2) :
    ∃ l, InKernel sampleImage (Fin.ofNat 35 i) (shareTurn i) l
      (hwintIn sampleImage 0 (shareTurn i)) := by
  refine ⟨_, hwintIn_inKernel 0 ?_ ?_ ?_⟩
  · interval_cases i
    · decide
    · decide
  · interval_cases i
    · decide
    · decide
  · interval_cases i
    · decide
    · decide

theorem share_flags (i : ℕ) (hi : i < 2) (p : Pid) :
    pFlagsAt sampleImage (shareTurn i).mem p = if p.val < 2 then 0 else 0x01010101 := by
  have hmem : ∀ q : Pid, pFlagsAt sampleImage shareMem q =
      if q.val < 2 then 0 else 0x01010101 := by decide
  induction i with
  | zero =>
    rw [shareTurn, restart_mem]
    exact hmem p
  | succ i ih =>
    obtain ⟨l, hin⟩ := share_in i (by omega)
    rw [shareTurn, hwintOut_mem]
    exact (hin.pFlags p).trans (ih (by omega))

theorem share_shows (i : ℕ) (hi : i < 2) :
    Shows sampleImage (hwintIn sampleImage 0 (shareTurn i)) (shareMachine (Fin.ofNat 35 i)) := by
  obtain ⟨l, hin⟩ := share_in i hi
  refine ⟨fun p => ?_, ?_, ?_⟩
  · rw [hin.pFlags, share_flags i hi]
    rfl
  · rw [hin.readyProcess]
    interval_cases i
    · decide
    · decide
  · rw [hin.kReenter]
    rfl

theorem clock_shares_sample : (shareTurn 2).regs = (shareTurn 0).regs := by
  have hown : ∀ i < 2, Step sampleImage (.ran, ∅) (shareTurn i) (shareTurn i) := by
    intro i hi
    interval_cases i
    · exact Step.idle (p := 0) (by decide) (Set.notMem_empty _) (by decide)
    · exact Step.idle (p := 1) (by decide) (Set.notMem_empty _) (by decide)
  have htick : ∀ i < 2, Tick sampleImage (shareTurn i) (shareTurn (i + 1)) := by
    intro i hi
    have hm : clockHandler (shareMachine (Fin.ofNat 35 i)) =
        .ok { shareMachine (Fin.ofNat 35 i) with
          ticks := 1, readyProcess := Fin.ofNat 35 ((i + 1) % 2) } := by
      interval_cases i
      · rfl
      · rfl
    rw [shareTurn]
    exact .pick (share_shows i hi) hm rfl
  have hflags : ∀ i < 2, ∀ p, p ∈ ({0, 1} : Finset Pid) ↔
      pFlagsAt sampleImage (shareTurn i).mem p = 0 := by
    intro i hi p
    rw [share_flags i hi p]
    revert p
    decide
  have hreached : Reached sampleImage (shareTurn 0) :=
    ⟨{ sampleState with mem := shareMem }, 0, [], rfl, rfl, by decide, .nil _⟩
  have hring : ∀ q ∈ ({0, 1} : Finset Pid), q ≠ 0 →
      ¬ (frameAt (shareTurn 0).mem (sampleImage.slot q)).Ring0 := by
    decide
  have hcard : ({0, 1} : Finset Pid).card = 2 := by decide
  have hround := clock_shares (i := 0) (p := 0) hreached ⟨hown, htick, hflags⟩ (by decide)
    (by decide) hring (by decide)
  rw [hcard] at hround
  exact hround.2.2

end Context

end SimpleOs
