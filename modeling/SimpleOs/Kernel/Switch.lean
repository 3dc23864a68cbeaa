import SimpleOs.Kernel.Context
import SimpleOs.Lib.Transition

/-!
# The registers of a process

The gate pushes into the `regs` of the slot behind which `tss.esp0` points, and `iretl` takes them
from the slot where `ready_process` points. C code is what its calling convention leaves of it.
The abstract model, `Virtual`, gives every process registers of its own.

* `save_user`: the frame of a process is in its slot while the kernel works for it.
* `context_refines`: whatever is scheduled, the processes run as in `Virtual`.
-/

namespace SimpleOs

namespace Context

open ByteMem WordStack Transition

/-! ## Slots -/

section

variable {img : Image} {p q : Pid} {b : Addr}

/-- How far a slot reaches in the table. -/
theorem Image.slot_bounds (h : InBlock (img.slot p) 168 b) :
    168 * p.val ≤ (b - img.procTable).toNat ∧ (b - img.procTable).toNat < 168 * p.val + 168 := by
  have htable := img.table
  have hp := p.isLt
  exact (inBlock_slot (by omega)).mp h

theorem Image.slot_table (h : InBlock (img.slot p) 74 b) : InBlock img.procTable (168 * 35) b := by
  have hp := p.isLt
  have hb := img.slot_bounds (Nat.lt_trans h (by omega : 74 < 168))
  unfold InBlock
  omega

theorem Image.slot_apart (hne : p ≠ q) (h : InBlock (img.slot p) 74 b) :
    ¬ InBlock (img.slot q) 74 b := by
  have hval : p.val ≠ q.val := fun heq => hne (Fin.ext heq)
  have hbp := img.slot_bounds (Nat.lt_trans h (by omega : 74 < 168))
  intro h'
  have hbq := img.slot_bounds (Nat.lt_trans h' (by omega : 74 < 168))
  omega

theorem Image.slot_injective : Function.Injective img.slot := by
  intro p q heq
  by_contra hne
  have hp : InBlock (img.slot p) 74 (img.slot p) := by
    unfold InBlock
    simp
  exact img.slot_apart hne hp (heq ▸ hp)

/-- Nothing on the stack is in a slot. -/
theorem Image.slot_stack (h : InBlock (img.slot p) 74 b) : ¬ InBlock (img.stackTop - 24) 24 b :=
  fun hb => img.stack b hb (img.slot_table h)

end

/-! ## In the kernel for a process -/

/-- The process `p` has come from `s` into the kernel; the words of `l` are on the kernel stack. -/
structure InKernel (img : Image) (p : Pid) (s : State) (l : List (BitVec 32)) (t : State) :
    Prop where
  esp : t.regs.esp = img.stackTop - BitVec.ofNat 32 (4 * l.length)
  stack : WordsAt t.mem t.regs.esp l
  esi : t.regs.esi = img.slot p
  args : t.regs.ebx = s.regs.ebx ∧ t.regs.ecx = s.regs.ecx ∧ t.regs.edx = s.regs.edx
  kReenter : t.kReenter = 0
  readyProcess : t.readyProcess = s.readyProcess
  frame : frameAt t.mem (img.slot p) = s.regs
  rest : ∀ a, ¬ InBlock (img.slot p) 72 a → ¬ InBlock (img.stackTop - 24) 24 a →
    t.mem a = s.mem a

section

variable {img : Image} {p : Pid} {s t : State} {l : List (BitVec 32)}

theorem InKernel.push (h : InKernel img p s l t) (w : BitVec 32) (hlen : l.length < 6) :
    InKernel img p s (w :: l) (t.push w) := by
  have hesp : t.regs.esp - 4 = img.stackTop - BitVec.ofNat 32 (4 * (l.length + 1)) := by
    rw [h.esp]
    bv_omega
  have hin : ∀ a, InBlock (t.regs.esp - 4) 4 a → InBlock (img.stackTop - 24) 24 a := by
    intro a ha
    rw [hesp] at ha
    unfold InBlock at ha ⊢
    bv_omega
  have hout : ∀ a, ¬ InBlock (img.stackTop - 24) 24 a → (t.push w).mem a = t.mem a :=
    fun a ha => writeWord_out fun h' => ha (hin a h')
  refine ⟨hesp, ⟨readWord_writeWord _ _ _, ?_⟩, h.esi, h.args, h.kReenter, h.readyProcess, ?_, ?_⟩
  · show WordsAt _ (t.regs.esp - 4 + 4) l
    rw [BitVec.sub_add_cancel]
    refine h.stack.congr (fun a ha => ?_) (by omega)
    exact writeWord_out (not_inBlock_below ha (by omega))
  · rw [← h.frame]
    exact frameAt_congr fun a ha => hout a (img.slot_stack (Nat.lt_trans ha (by omega)))
  · exact fun a ha hs => (hout a hs).trans (h.rest a ha hs)

/-- Of the registers only those that the fields name matter. -/
theorem InKernel.setRegs (h : InKernel img p s l t) (r : Regs) (hesp : r.esp = t.regs.esp)
    (hesi : r.esi = t.regs.esi)
    (hargs : r.ebx = t.regs.ebx ∧ r.ecx = t.regs.ecx ∧ r.edx = t.regs.edx) :
    InKernel img p s l { t with regs := r } where
  esp := hesp.trans h.esp
  stack := by
    show WordsAt t.mem r.esp l
    rw [hesp]
    exact h.stack
  esi := hesi.trans h.esi
  args := ⟨hargs.1.trans h.args.1, hargs.2.1.trans h.args.2.1, hargs.2.2.trans h.args.2.2⟩
  kReenter := h.kReenter
  readyProcess := h.readyProcess
  frame := h.frame
  rest := h.rest

/-- `save` on its way to the kernel stack. -/
def State.switched (img : Image) (e : State) : State :=
  { e with
    regs := { e.regs with
      ds := e.regs.ss, es := e.regs.ss, fs := e.regs.ss, esi := e.regs.esp, esp := img.stackTop }
    kReenter := e.kReenter + 1 }

theorem save_outer {e : State} (he : pushSegs (pushal s) = e) (h : e.kReenter + 1 = 0) :
    save img s =
      let t := (e.switched img).push img.restart
      { t with regs := { t.regs with eip := word t.mem e.regs.esp 12 } } := by
  unfold save
  rw [he]
  simp only [if_pos h]
  rfl

/-- Behind the last `pushl` of `save` the frame is complete. -/
theorem entered_inKernel (handler retaddr : Addr) (h : ¬ s.regs.Ring0)
    (hesp : s.esp0 = img.slot p + 72) (hk : s.kReenter + 1 = 0) :
    let e := entered handler retaddr s
    InKernel img p s [] (e.switched img) ∧ e.regs.eax = s.regs.eax ∧
      e.regs.esp = img.slot p ∧ e.kReenter + 1 = 0 ∧ word e.mem (img.slot p) 12 = retaddr := by
  obtain ⟨kernelEsp, he⟩ := entered_user handler retaddr h
  have hslot : s.esp0 - BitVec.ofNat 32 (4 * 18) = img.slot p := by
    rw [hesp]
    bv_omega
  obtain ⟨hregs, hwords, hout⟩ := State.pushes_spec
    { s with regs := { s.regs.gated handler with ss := 16, esp := s.esp0 } }
    (s.regs.words kernelEsp retaddr) (by simp [Regs.words])
  rw [← he] at hregs hwords hout
  change WordsAt _ (s.esp0 - BitVec.ofNat 32 (4 * 18)) _ at hwords
  change ∀ b, ¬ InBlock (s.esp0 - BitVec.ofNat 32 (4 * 18)) 72 b → _ at hout
  rw [hslot] at hwords hout
  have hregs' : (entered handler retaddr s).regs =
      { s.regs.gated handler with ss := 16, esp := img.slot p } := by
    rw [hregs, ← hslot]
    rfl
  have hkr : (entered handler retaddr s).kReenter = s.kReenter := by rw [he]; rfl
  have hready : (entered handler retaddr s).readyProcess = s.readyProcess := by rw [he]; rfl
  dsimp only
  generalize entered handler retaddr s = e at *
  refine ⟨⟨?_, trivial, ?_, ?_, ?_, hready, frameAt_words hwords, fun a ha _ => hout a ha⟩,
    ?_, ?_, ?_, hwords.word (i := 12) rfl⟩
  · exact (BitVec.sub_zero _).symm
  · show e.regs.esp = _
    rw [hregs']
  · show e.regs.ebx = _ ∧ e.regs.ecx = _ ∧ e.regs.edx = _
    rw [hregs']
    exact ⟨rfl, rfl, rfl⟩
  · show e.kReenter + 1 = 0
    rw [hkr, hk]
  · rw [hregs']
    rfl
  · rw [hregs']
  · rw [hkr, hk]

/-- Through a gate and `save`, from a process. -/
theorem save_user (handler retaddr : Addr) (h : ¬ s.regs.Ring0) (hesp : s.esp0 = img.slot p + 72)
    (hk : s.kReenter + 1 = 0) :
    let t := save img ((gate handler s).push retaddr)
    InKernel img p s [img.restart] t ∧ t.regs.eax = s.regs.eax ∧ t.regs.eip = retaddr := by
  obtain ⟨hk, heax, hsp, hzero, hret⟩ := entered_inKernel handler retaddr h hesp hk
  have he : pushSegs (pushal ((gate handler s).push retaddr)) = entered handler retaddr s := rfl
  rw [save_outer he hzero]
  generalize entered handler retaddr s = e at *
  have ht := hk.push img.restart (by simp)
  have hword : word ((e.switched img).push img.restart).mem (img.slot p) 12 =
      word e.mem (img.slot p) 12 := by
    refine word_congr (n := 18) (by omega) (by omega) fun b hb => writeWord_out fun h' => ?_
    refine img.slot_stack (Nat.lt_trans hb (by omega)) ?_
    change InBlock (img.stackTop - 4) 4 b at h'
    unfold InBlock at h' ⊢
    bv_omega
  refine ⟨ht.setRegs _ rfl rfl ⟨rfl, rfl, rfl⟩, heax, ?_⟩
  show word ((e.switched img).push img.restart).mem e.regs.esp 12 = retaddr
  rw [hsp, hword, hret]

theorem InKernel.sti (h : InKernel img p s l t) : InKernel img p s l (sti t) :=
  h.setRegs _ rfl rfl ⟨rfl, rfl, rfl⟩

theorem hwintIn_inKernel (n : Fin 8) (h : ¬ s.regs.Ring0) (hesp : s.esp0 = img.slot p + 72)
    (hk : s.kReenter + 1 = 0) :
    InKernel img p s [BitVec.ofNat 32 n.val, img.restart] (hwintIn img n s) := by
  obtain ⟨ht, -, -⟩ := save_user (img.hwint n) (img.behindHwint n) h hesp hk
  unfold hwintIn
  generalize save img ((gate (img.hwint n) s).push (img.behindHwint n)) = t at ht ⊢
  have hal := ht.setRegs { t.regs with eax := t.regs.eax &&& 0xffffff00 ||| 0x20 } rfl rfl
    ⟨rfl, rfl, rfl⟩
  exact hal.sti.push _ (by simp)

theorem State.push_eax (s : State) (w : BitVec 32) : (s.push w).regs.eax = s.regs.eax := rfl

theorem pushArgs_eax (s : State) : (pushArgs s).regs.eax = s.regs.eax := by
  simp only [pushArgs, State.push_eax]

theorem InKernel.pushArgs (h : InKernel img p s [img.restart] t) :
    InKernel img p s
      [s.regs.ebx, s.regs.ecx, s.regs.edx, s.readyProcess, img.slot p, img.restart]
      (pushArgs t) := by
  have hargs := h.args
  rw [← h.esi, ← h.readyProcess, ← hargs.1, ← hargs.2.1, ← hargs.2.2]
  have h1 := h.push t.regs.esi (by simp)
  have h2 := h1.push t.readyProcess (by simp)
  have h3 := h2.push t.regs.edx (by simp)
  have h4 := h3.push t.regs.ecx (by simp)
  exact h4.push t.regs.ebx (by simp)

theorem sysCallIn_inKernel (h : ¬ s.regs.Ring0) (hesp : s.esp0 = img.slot p + 72)
    (hk : s.kReenter + 1 = 0) :
    InKernel img p s
        [s.regs.ebx, s.regs.ecx, s.regs.edx, s.readyProcess, img.slot p, img.restart]
        (sysCallIn img s) ∧
      (sysCallIn img s).regs.eax = s.regs.eax := by
  have hsave := save_user img.sysCall img.behindSysCall h hesp hk
  unfold sysCallIn
  revert hsave
  generalize save img ((gate img.sysCall s).push img.behindSysCall) = t
  rintro ⟨ht, heax, -⟩
  exact ⟨ht.sti.pushArgs, (pushArgs_eax (sti t)).trans heax⟩

end

/-! ## C code -/

/-- C code is called at `s` with `n` words as its arguments, which are its own, and returns at `t`;
    the kernel stack above them is as it was, and so is `k_reenter`, which only the entries
    change. -/
structure Returns (img : Image) (n : ℕ) (s t : State) : Prop where
  esp : t.regs.esp = s.regs.esp
  ss : t.regs.ss = s.regs.ss
  kReenter : t.kReenter = s.kReenter
  stack : ∀ a, InBlock s.regs.esp (img.stackTop - s.regs.esp).toNat a →
    ¬ InBlock s.regs.esp (4 * n) a → t.mem a = s.mem a

/-- Outside `W` the `regs` and the `ldt_sel` of the slots have not been written. -/
def Spares (img : Image) (W : Set Pid) (mem mem' : Mem) : Prop :=
  ∀ p ∉ W, ∀ a, InBlock (img.slot p) 74 a → mem' a = mem a

section

variable {img : Image} {p : Pid} {s s₀ t : State} {l : List (BitVec 32)} {n i : ℕ}

theorem InKernel.word (h : InKernel img p s₀ l s) {w : BitVec 32} (hi : l[i]? = some w) :
    s.word i = w := h.stack.word hi

theorem InKernel.returned (h : InKernel img p s₀ l s) (ht : Returns img n s t) (hlen : l.length ≤ 6)
    {w : BitVec 32} (hi : l[n + i]? = some w) : t.word (n + i) = w := by
  obtain ⟨hlt, -⟩ := List.getElem?_eq_some_iff.mp hi
  rw [← h.word hi]
  unfold State.word
  rw [ht.esp]
  apply readWord_congr
  intro j hj
  have hin : (img.stackTop - s.regs.esp).toNat = 4 * l.length := by
    rw [h.esp]
    bv_omega
  apply ht.stack
  · rw [hin]
    unfold InBlock
    bv_omega
  · unfold InBlock
    bv_omega

theorem hwintOut_eq (hlabel : t.word 1 = img.restart)
    (hring : ¬ (frameAt t.mem t.readyProcess).Ring0) : hwintOut img t = t.resume := by
  have hword : (t.drop 1).word 0 = img.restart := (t.word_drop 1 0).trans hlabel
  exact retl_restart (s := cli { t.drop 1 with regs := { (t.drop 1).regs with ecx := t.word 0 } })
    hword hring

theorem sysCallOut_eq {a : Addr} (hesi : t.word 4 = a)
    (hlabel : Context.word (writeWord t.mem (a + 44) t.regs.eax) t.regs.esp 5 = img.restart)
    (hring : ¬ (frameAt (writeWord t.mem (a + 44) t.regs.eax) t.readyProcess).Ring0) :
    sysCallOut img t = ({ t with mem := writeWord t.mem (a + 44) t.regs.eax } : State).resume := by
  have hword : (t.answered a).word 0 = img.restart := (t.answered_word a 0).trans hlabel
  rw [sysCallOut_retl img hesi, retl_restart hword hring]
  rfl

end

/-! ## Runs -/

/-- A process executes instructions of its own; a line interrupts it; it makes a system call. The
    last event has what the function of `sys_call_table` is called with (the number, the process,
    three words) and what it returns. -/
inductive Event where
  | ran
  | irq (n : Fin 8)
  | sysCall (caller : Pid) (nr a b c result : BitVec 32)

/-- The label of a step has the slots that code writes in this step. A process does not write its
    own; the scheduler picks one whose frame is that of a process. -/
inductive Step (img : Image) : Event × Set Pid → State → State → Prop
  | ran {W : Set Pid} {s : State} {p : Pid} (r : Regs) (mem : Mem)
      (hp : s.readyProcess = img.slot p) (hW : p ∉ W) (hring : ¬ r.Ring0)
      (hspare : Spares img W s.mem mem) : Step img (.ran, W) s { s with regs := r, mem := mem }
  | irq {W : Set Pid} {s t : State} {q : Pid} (n : Fin 8)
      (ht : Returns img 1 (hwintIn img n s) t) (hspare : Spares img W (hwintIn img n s).mem t.mem)
      (hq : t.readyProcess = img.slot q) (hring : ¬ (frameAt t.mem (img.slot q)).Ring0) :
      Step img (.irq n, W) s (hwintOut img t)
  | sysCall {W : Set Pid} {s t : State} {q caller : Pid} (ht : Returns img 4 (sysCallIn img s) t)
      (hspare : Spares img W (sysCallIn img s).mem t.mem)
      (hcaller : (sysCallIn img s).word 3 = img.slot caller)
      (hq : t.readyProcess = img.slot q) (hring : ¬ (frameAt t.mem (img.slot q)).Ring0) :
      Step img (.sysCall caller (sysCallIn img s).regs.eax ((sysCallIn img s).word 0)
        ((sysCallIn img s).word 1) ((sysCallIn img s).word 2) t.regs.eax, W) s (sysCallOut img t)

/-- Every process has registers and a local descriptor table of its own. -/
@[ext]
structure Virtual where
  regs : Pid → Regs
  ldt : Pid → BitVec 16
  running : Pid

/-- The processes outside `W` go on as in `v`. -/
def Virtual.Spared (W : Set Pid) (v v' : Virtual) : Prop :=
  ∀ p ∉ W, v'.regs p = v.regs p ∧ v'.ldt p = v.ldt p

def Virtual.setRegs (v : Virtual) (r : Regs) : Virtual :=
  { v with regs := Function.update v.regs v.running r }

inductive VirtualStep : Event × Set Pid → Virtual → Virtual → Prop
  | ran {W : Set Pid} {v v' : Virtual} (r : Regs) (hrunning : v'.running = v.running)
      (h : (v.setRegs r).Spared W v') : VirtualStep (.ran, W) v v'
  | irq {W : Set Pid} {v v' : Virtual} (n : Fin 8) (h : v.Spared W v') :
      VirtualStep (.irq n, W) v v'
  | sysCall {W : Set Pid} {v v' : Virtual} (result : BitVec 32)
      (h : (v.setRegs { v.regs v.running with eax := result }).Spared W v') :
      VirtualStep (.sysCall v.running (v.regs v.running).eax (v.regs v.running).ebx
        (v.regs v.running).ecx (v.regs v.running).edx result, W) v v'

/-- The processor has the registers of the running process; the others' are in their slots. -/
structure Refines (img : Image) (s : State) (v : Virtual) : Prop where
  readyProcess : s.readyProcess = img.slot v.running
  regs : s.regs = v.regs v.running
  ring : ¬ s.regs.Ring0
  kReenter : s.kReenter + 1 = 0
  esp0 : s.esp0 = img.slot v.running + 72
  ldtr : s.ldtr = v.ldt v.running
  frames : ∀ p ≠ v.running, frameAt s.mem (img.slot p) = v.regs p
  ldts : ∀ p, ldtSel s.mem (img.slot p) = v.ldt p

/-- As the slots have it, with `p` in `ready_process`. -/
def tableView (img : Image) (mem : Mem) (p : Pid) : Virtual :=
  ⟨fun q => frameAt mem (img.slot q), fun q => ldtSel mem (img.slot q), p⟩

section

variable {img : Image} {p q : Pid} {s s' t : State} {v : Virtual} {l : List (BitVec 32)}
  {W : Set Pid}

theorem State.resume_refines (hk : t.kReenter = 0) (hq : t.readyProcess = img.slot q)
    (hring : ¬ (frameAt t.mem (img.slot q)).Ring0) :
    Refines img t.resume (tableView img t.mem q) := by
  have hregs : t.resume.regs = frameAt t.mem (img.slot q) := by rw [← hq]; rfl
  refine ⟨hq, hregs, ?_, ?_, ?_, ?_, fun p _ => rfl, fun p => rfl⟩
  · rw [hregs]
    exact hring
  · show t.kReenter - 1 + 1 = 0
    rw [hk]
    rfl
  · show t.readyProcess + 72 = img.slot q + 72
    rw [hq]
  · show ldtSel t.mem t.readyProcess = _
    rw [hq]
    rfl

/-- In the kernel all frames are in the slots, that of the process it has come from, too. -/
theorem Refines.inKernel (h : Refines img s v) (ht : InKernel img v.running s l t) (p : Pid) :
    frameAt t.mem (img.slot p) = v.regs p ∧ ldtSel t.mem (img.slot p) = v.ldt p := by
  have hsame : ∀ b, InBlock (img.slot p) 74 b → ¬ InBlock (img.slot v.running) 72 b →
      t.mem b = s.mem b := fun b hb hne => ht.rest b hne (img.slot_stack hb)
  by_cases hp : p = v.running
  · subst hp
    refine ⟨ht.frame.trans h.regs, ?_⟩
    rw [← h.ldts, ldtSel, ldtSel, hsame, hsame]
    all_goals
      unfold InBlock
      bv_omega
  · have hne : ∀ b, InBlock (img.slot p) 74 b → ¬ InBlock (img.slot v.running) 72 b :=
      fun b hb hv => img.slot_apart hp hb (Nat.lt_trans hv (by omega))
    rw [← h.frames p hp, ← h.ldts]
    exact ⟨frameAt_congr fun b hb =>
        have hb' := Nat.lt_trans hb (by omega); hsame b hb' (hne b hb'),
      ldtSel_congr fun b hb => hsame b hb (hne b hb)⟩

theorem Spares.frame (h : Spares img W s.mem t.mem) (hp : p ∉ W) :
    frameAt t.mem (img.slot p) = frameAt s.mem (img.slot p) ∧
      ldtSel t.mem (img.slot p) = ldtSel s.mem (img.slot p) :=
  ⟨frameAt_congr fun b hb => h p hp b (Nat.lt_trans hb (by omega)),
    ldtSel_congr fun b hb => h p hp b hb⟩

/-- C code has returned to an entry that goes on with `q`. -/
theorem Refines.spared (h : Refines img s v) {s₁ : State} (hs : InKernel img v.running s l s₁)
    (hspare : Spares img W s₁.mem t.mem) (q : Pid) : v.Spared W (tableView img t.mem q) := by
  intro p hp
  obtain ⟨hregs, hldt⟩ := h.inKernel hs p
  obtain ⟨hregs', hldt'⟩ := hspare.frame hp
  exact ⟨hregs'.trans hregs, hldt'.trans hldt⟩

theorem hwint_refines (h : Refines img s v) (n : Fin 8) (ht : Returns img 1 (hwintIn img n s) t)
    (hspare : Spares img W (hwintIn img n s).mem t.mem) (hq : t.readyProcess = img.slot q)
    (hring : ¬ (frameAt t.mem (img.slot q)).Ring0) :
    v.Spared W (tableView img t.mem q) ∧
      Refines img (hwintOut img t) (tableView img t.mem q) := by
  have hin := hwintIn_inKernel n h.ring h.esp0 h.kReenter
  have hlabel : t.word 1 = img.restart := hin.returned (i := 0) ht (by simp) rfl
  rw [hwintOut_eq hlabel (hq ▸ hring)]
  exact ⟨h.spared hin hspare q, State.resume_refines (ht.kReenter.trans hin.kReenter) hq hring⟩

/-- The return value goes into one frame. -/
theorem write_eax (img : Image) (mem : Mem) (p q : Pid) (v : BitVec 32) :
    frameAt (writeWord mem (img.slot p + 44) v) (img.slot q) =
        (if q = p then { frameAt mem (img.slot q) with eax := v } else frameAt mem (img.slot q)) ∧
      ldtSel (writeWord mem (img.slot p + 44) v) (img.slot q) = ldtSel mem (img.slot q) := by
  have hin : ∀ b, InBlock (img.slot p + 44) 4 b → InBlock (img.slot p) 74 b := by
    intro b hb
    unfold InBlock at hb ⊢
    bv_omega
  by_cases hqp : q = p
  · subst hqp
    rw [if_pos rfl]
    refine ⟨frameAt_eax mem (img.slot q) v, ?_⟩
    unfold ldtSel
    rw [writeWord_out, writeWord_out]
    all_goals
      unfold InBlock
      bv_omega
  · rw [if_neg hqp]
    have hout : ∀ b, InBlock (img.slot q) 74 b →
        writeWord mem (img.slot p + 44) v b = mem b := fun b hb =>
      writeWord_out fun hb' => img.slot_apart hqp hb (hin b hb')
    exact ⟨frameAt_congr fun b hb => hout b (Nat.lt_trans hb (by omega)), ldtSel_congr hout⟩

theorem sysCall_refines (h : Refines img s v) (ht : Returns img 4 (sysCallIn img s) t)
    (hspare : Spares img W (sysCallIn img s).mem t.mem) (hq : t.readyProcess = img.slot q)
    (hring : ¬ (frameAt t.mem (img.slot q)).Ring0) :
    let v' := tableView img (writeWord t.mem (img.slot v.running + 44) t.regs.eax) q
    (v.setRegs { v.regs v.running with eax := t.regs.eax }).Spared W v' ∧
      Refines img (sysCallOut img t) v' := by
  obtain ⟨hin, -⟩ := sysCallIn_inKernel h.ring h.esp0 h.kReenter
  have hwrite := fun p' => write_eax img t.mem v.running p' t.regs.eax
  have hesi : t.word 4 = img.slot v.running := hin.returned (i := 0) ht (by simp) rfl
  have hlabel : t.word 5 = img.restart := hin.returned (i := 1) ht (by simp) rfl
  have hesp : t.regs.esp = img.stackTop - 24 := ht.esp.trans hin.esp
  have hlabel' : word (writeWord t.mem (img.slot v.running + 44) t.regs.eax) t.regs.esp 5 =
      img.restart := by
    rw [← hlabel]
    refine word_congr (n := 6) (by omega) (by omega) fun b hb => writeWord_out fun hb' => ?_
    rw [hesp] at hb
    refine img.slot_stack (p := v.running) ?_ hb
    unfold InBlock at hb' ⊢
    bv_omega
  have hring' : ¬ (frameAt (writeWord t.mem (img.slot v.running + 44) t.regs.eax)
      (img.slot q)).Ring0 := by
    rw [(hwrite q).1]
    split
    · exact hring
    · exact hring
  dsimp only
  rw [sysCallOut_eq hesi hlabel' (by rw [hq]; exact hring')]
  refine ⟨fun p' hp' => ?_, State.resume_refines (ht.kReenter.trans hin.kReenter) hq hring'⟩
  obtain ⟨hregs, hldt⟩ := h.spared hin hspare q p' hp'
  refine ⟨(hwrite p').1.trans ?_, (hwrite p').2.trans hldt⟩
  change frameAt t.mem (img.slot p') = v.regs p' at hregs
  by_cases hrun : p' = v.running
  · subst hrun
    simp [Virtual.setRegs, hregs]
  · simp [Virtual.setRegs, hregs, hrun]

theorem Refines.step {e : Event × Set Pid} (h : Refines img s v) (hs : Step img e s s') :
    ∃ v', VirtualStep e v v' ∧ Refines img s' v' := by
  cases hs with
  | @ran W _ p r mem hp hW hring hspare =>
    have hrun : v.running = p := img.slot_injective (h.readyProcess.symm.trans hp)
    subst hrun
    have hframe : ∀ q ∉ W, frameAt mem (img.slot q) = frameAt s.mem (img.slot q) ∧
        ldtSel mem (img.slot q) = ldtSel s.mem (img.slot q) := fun q hq =>
      Spares.frame (s := s) (t := { s with mem := mem }) hspare hq
    refine ⟨(tableView img mem v.running).setRegs r, .ran r rfl fun q hq => ?_, h.readyProcess, ?_,
      hring, h.kReenter, h.esp0, ?_, fun q hq => ?_, fun q => rfl⟩
    · obtain ⟨hregs, hldt⟩ := hframe q hq
      refine ⟨?_, hldt.trans (h.ldts q)⟩
      by_cases hq' : q = v.running
      · simp [Virtual.setRegs, tableView, hq']
      · simp [Virtual.setRegs, tableView, hq', hregs, h.frames q hq']
    · simp [Virtual.setRegs, tableView]
    · exact h.ldtr.trans ((h.ldts v.running).symm.trans (hframe v.running hW).2.symm)
    · simp [Virtual.setRegs, tableView, show q ≠ v.running from hq]
  | irq n ht hspare hq hring =>
    obtain ⟨hspared, href⟩ := hwint_refines h n ht hspare hq hring
    exact ⟨_, .irq n hspared, href⟩
  | sysCall ht hspare hcaller hq hring =>
    obtain ⟨hspared, href⟩ := sysCall_refines h ht hspare hq hring
    obtain ⟨hin, heax⟩ := sysCallIn_inKernel h.ring h.esp0 h.kReenter
    have hcaller' := (hin.word (i := 3) rfl).symm.trans hcaller
    have hrun := img.slot_injective (h.readyProcess.symm.trans hcaller')
    rw [heax, hin.word (i := 0) rfl, hin.word (i := 1) rfl, hin.word (i := 2) rfl, h.regs, ← hrun]
    exact ⟨_, .sysCall _ hspared, href⟩

end

/-- The processes run as in `Virtual`, from the `restart` of `kernel_main` on. -/
theorem context_refines {img : Image} {s s' : State} {p : Pid} {l : List (Event × Set Pid)}
    (hk : s.kReenter = 0) (hp : s.readyProcess = img.slot p)
    (hring : ¬ (frameAt s.mem (img.slot p)).Ring0) (h : Run (Step img) l (restart s) s') :
    ∃ v, Run VirtualStep l (tableView img s.mem p) v ∧ Refines img s' v := by
  have hstart : Refines img (restart s) (tableView img s.mem p) := by
    rw [restart_user (hp ▸ hring)]
    exact State.resume_refines hk hp hring
  have hstep : ∀ e s s' v, Refines img s v → Step img e s s' →
      ∃ v', VirtualStep e v v' ∧ Refines img s' v' := fun _ _ _ _ ht hs => ht.step hs
  exact h.simulate hstep hstart

def sampleImage : Image where
  procTable := 0x1000
  stackTop := 0x8000
  restart := 0x100
  restartReenter := 0x140
  hwint := fun n => 0x200 + BitVec.ofNat 32 (16 * n.val)
  behindHwint := fun n => 0x205 + BitVec.ofNat 32 (16 * n.val)
  sysCall := 0x300
  behindSysCall := 0x305
  labels := by decide
  table := by decide
  stack := by
    intro a ha
    unfold InBlock at *
    bv_omega

/-- `kernel_main` calls `restart`; every byte is 1. -/
def sampleState : State :=
  { regs := frameAt (fun _ => 1) 0
    mem := fun _ => 1
    kReenter := 0
    readyProcess := sampleImage.slot 0
    esp0 := 0
    ldtr := 0 }

/-- The C code of a system call has returned 7 and made process 1 ready. -/
def sampleReturn : State :=
  let s := sysCallIn sampleImage (restart sampleState)
  { s with regs := { s.regs with eax := 7 }, readyProcess := sampleImage.slot 1 }

theorem sample_step :
    Step sampleImage (.sysCall 0 0x01010101 0x01010101 0x01010101 0x01010101 7, ∅)
      (restart sampleState) (sysCallOut sampleImage sampleReturn) := by
  have heax : (sysCallIn sampleImage (restart sampleState)).regs.eax = 0x01010101 := by
    decide
  have hebx : (sysCallIn sampleImage (restart sampleState)).word 0 = 0x01010101 := by
    decide
  have hecx : (sysCallIn sampleImage (restart sampleState)).word 1 = 0x01010101 := by
    decide
  have hedx : (sysCallIn sampleImage (restart sampleState)).word 2 = 0x01010101 := by
    decide
  have hstep : Step sampleImage _ (restart sampleState) (sysCallOut sampleImage sampleReturn) :=
    @Step.sysCall sampleImage ∅ _ _ 1 0 ⟨rfl, rfl, rfl, fun _ _ _ => rfl⟩
      (fun _ _ _ _ => rfl) (by decide) rfl (by decide)
  rw [heax, hebx, hecx, hedx] at hstep
  exact hstep

theorem context_refines_sample :
    ∃ v, Run VirtualStep [(.sysCall 0 0x01010101 0x01010101 0x01010101 0x01010101 7, ∅)]
        (tableView sampleImage sampleState.mem 0) v ∧
      Refines sampleImage (sysCallOut sampleImage sampleReturn) v :=
  context_refines rfl rfl (by decide) (.cons sample_step (.nil _))

end Context

end SimpleOs
