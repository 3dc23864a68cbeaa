import Mathlib.Data.Int.Notation
import Mathlib.Tactic.SplitIfs
import SimpleOs.Lib.Transition

/-!
# Interrupts and `restart`

Model of the way into the kernel and out of it: `HWINT_MASTER`, `save`, `sys_call`,
`restart` and `restart_reenter` (p_kernel.s:397-508, asm_syscall.S:64-79), and the
call of `restart` at the end of `kernel_main` (start.c:553-558). Of the machine there
are the interrupt flag, `k_reenter`, the place of the stack pointer, and what nested
interrupts have put on the kernel stack. C code, in the kernel or in a process, is
any sequence of `disable_int` and `enable_int`; it can be interrupted whenever the
flag is set.

All gates are interrupt gates (start.c:181-235), so the flag is 0 from the gate to
the `sti` of the entry. The lines that are not served end in `hlt` and are masked;
they are left out, as are the exceptions.

* `restartRun_interrupts_iff`: `restart` runs with the flag cleared if and only if
  the kernel was entered through an interrupt or a system call.
* `boot_restart_interruptible`: `kernel_main` calls it with the flag set.
-/

namespace SimpleOs

open Transition

/-! ## The machine -/

/-- The entries of the kernel that call `save`. -/
inductive Entry where
  | hwint
  | sysCall
  deriving DecidableEq

/-- How control has come to `restart` or `restart_reenter`. -/
inductive Origin where
  | kernelMain
  | entry (e : Entry)
  deriving DecidableEq

/-- The instructions from `restart` on (p_kernel.s:457-477); `restart_reenter` is
    at `decl`. -/
inductive RestartInsn where
  | movEsp
  | lldt
  | leaEax
  | movTss
  | decl
  | popGs
  | popFs
  | popEs
  | popDs
  | popal
  | addEsp
  | iretl
  deriving DecidableEq

/-- The instruction behind it. -/
def RestartInsn.next : RestartInsn → RestartInsn
  | .movEsp => .lldt
  | .lldt => .leaEax
  | .leaEax => .movTss
  | .movTss => .decl
  | .decl => .popGs
  | .popGs => .popFs
  | .popFs => .popEs
  | .popEs => .popDs
  | .popDs => .popal
  | .popal => .addEsp
  | .addEsp => .iretl
  | .iretl => .iretl

/-- The addresses that `save` pushes. -/
inductive Label where
  | restart
  | restartReenter
  deriving DecidableEq

def Label.insn : Label → RestartInsn
  | .restart => .movEsp
  | .restartReenter => .decl

/-- Where the processor is. -/
inductive CpuPc where
  /-- C code of the kernel before the `set_cursor(0)` of `kernel_main`. -/
  | kernelMain
  /-- In that call, between `disable_int` and `enable_int`. -/
  | setCursor
  /-- Behind it, at the call of `restart`. -/
  | callRestart
  /-- A process or a task. -/
  | process
  /-- The gate has been passed, and `save` is called. -/
  | save (e : Entry)
  /-- Behind `save`, up to the `sti`; `save` has pushed `ret`. -/
  | entered (e : Entry) (ret : Label)
  /-- C code: an interrupt handler or a system call. -/
  | handler (e : Entry) (ret : Label)
  /-- Behind the `cli`. -/
  | left (e : Entry) (ret : Label)
  | restart (o : Origin) (i : RestartInsn)
  deriving DecidableEq

/-- Where `%esp` points: into the kernel stack, or to the registers of a process in
    its slot. -/
inductive StackPlace where
  | kernel
  | frame
  deriving DecidableEq

/-- What an interrupt in the kernel leaves on the stack. -/
structure Context where
  pc : CpuPc
  iflag : Bool
  deriving DecidableEq

structure Cpu where
  pc : CpuPc
  iflag : Bool
  kReenter : ℤ
  stack : StackPlace
  suspended : List Context
  deriving DecidableEq

/-- `_start` has cleared the flag; `k_reenter` is initialised with 0
    (p_kernel.s:107, process.c:27). -/
def Cpu.booted : Cpu := ⟨.kernelMain, false, 0, .kernel, []⟩

/-! ## The steps -/

/-- `disable_int` and `enable_int` (include/irq.h:17-25). -/
def disableInt (s : Cpu) : Cpu := { s with iflag := false }
def enableInt (s : Cpu) : Cpu := { s with iflag := true }

/-- The processor passes an interrupt gate. From a process it switches to the stack
    of the task segment, which is the slot of the process; in the kernel it stays on
    the stack it is on. -/
def Cpu.enter (s : Cpu) (e : Entry) : Cpu :=
  if s.pc = .process then { s with pc := .save e, iflag := false, stack := .frame }
  else { s with pc := .save e, iflag := false, suspended := ⟨s.pc, s.iflag⟩ :: s.suspended }

/-- `save` (p_kernel.s:480-508). -/
def Cpu.save (s : Cpu) (e : Entry) : Cpu :=
  if s.kReenter + 1 = 0 then
    { s with pc := .entered e .restart, kReenter := s.kReenter + 1, stack := .kernel }
  else { s with pc := .entered e .restartReenter, kReenter := s.kReenter + 1 }

/-- An instruction of `restart` other than `iretl`. -/
def Cpu.restart (s : Cpu) (o : Origin) (i : RestartInsn) : Cpu :=
  match i with
  | .movEsp => { s with pc := .restart o .lldt, stack := .frame }
  | .decl => { s with pc := .restart o .popGs, kReenter := s.kReenter - 1 }
  | i => { s with pc := .restart o i.next }

/-- The code in which there is no choice. -/
def Cpu.next (s : Cpu) : Option Cpu :=
  match s.pc with
  | .setCursor => some { enableInt s with pc := .callRestart }
  | .callRestart => some { s with pc := .restart .kernelMain .movEsp }
  | .save e => some (s.save e)
  | .entered e ret => some { s with pc := .handler e ret, iflag := true }
  | .left e ret => some { s with pc := .restart (.entry e) ret.insn }
  | .restart _ .iretl =>
    match s.stack, s.suspended with
    | .kernel, c :: rest => some { s with pc := c.pc, iflag := c.iflag, suspended := rest }
    | _, _ => none
  | .restart o i => some (s.restart o i)
  | _ => none

/-- C code runs, which can call `disable_int`, `enable_int` and, with `int 0x80`, the
    kernel. -/
def CpuPc.RunsC : CpuPc → Prop
  | .kernelMain => True
  | .process => True
  | .handler _ _ => True
  | _ => False

/-- A step of the processor. Interrupts arrive in states that meet `C`. -/
inductive CpuStep (C : Cpu → Prop) (s : Cpu) : Cpu → Prop
  | next {s' : Cpu} (h : s.next = some s') : CpuStep C s s'
  | disableInt (h : s.pc.RunsC) : CpuStep C s (SimpleOs.disableInt s)
  | enableInt (h : s.pc.RunsC) : CpuStep C s (SimpleOs.enableInt s)
  /-- `kernel_main` calls `set_cursor(0)` (start.c:553, tty/console.c:52-61). -/
  | setCursor (h : s.pc = .kernelMain) :
      CpuStep C s { SimpleOs.disableInt s with pc := .setCursor }
  /-- The handler has returned. -/
  | leave (e : Entry) (ret : Label) (h : s.pc = .handler e ret) :
      CpuStep C s { s with pc := .left e ret, iflag := false }
  | sysCall (h : s.pc.RunsC) : CpuStep C s (s.enter .sysCall)
  | interrupt (hflag : s.iflag = true) (hC : C s) : CpuStep C s (s.enter .hwint)
  /-- To the process, with the flags in its slot. -/
  | iretl (o : Origin) (h : s.pc = .restart o .iretl) (hstack : s.stack = .frame) (flag : Bool) :
      CpuStep C s { s with pc := .process, iflag := flag }

/-- The first `restart` is behind its first instruction. -/
def Cpu.InBootRestart (s : Cpu) : Prop := ∃ i, s.pc = .restart .kernelMain i ∧ i ≠ .movEsp

/-- The state after `n` instructions. -/
def Cpu.nexts : ℕ → Cpu → Option Cpu
  | 0, s => some s
  | n + 1, s => s.next.bind (Cpu.nexts n)

/-- An interrupt that arrives now finds `k_reenter` and the stack as they are in the
    kernel, and takes the way through `restart_reenter`. -/
structure Cpu.Nests (s : Cpu) : Prop where
  kReenter : 0 ≤ s.kReenter
  stack : s.stack = .kernel
  pc : ((s.enter .hwint).save .hwint).pc = .entered .hwint .restartReenter
  stays : ((s.enter .hwint).save .hwint).stack = .kernel

/-! ## The invariant -/

/-- What `save` pushes above `n` suspended contexts. -/
def returnLabel : ℕ → Label
  | 0 => .restart
  | _ + 1 => .restartReenter

theorem returnLabel_of_pos {n : ℕ} (h : 0 < n) : returnLabel n = .restartReenter := by
  cases n with
  | zero => exact absurd h (Nat.lt_irrefl 0)
  | succ => rfl

/-- `k_reenter` counts the contexts below, and the processor is on the kernel stack. -/
structure InKernel (n : ℕ) (k : ℤ) (place : StackPlace) : Prop where
  kReenter : k = n
  stack : place = .kernel

/-- From where `restart` takes the registers. -/
def returnPlace : ℕ → StackPlace
  | 0 => .frame
  | _ + 1 => .kernel

/-- `restart` in front of the instruction `i`, with `n` contexts below what it
    returns from. -/
def RestartSound (i : RestartInsn) (n : ℕ) (k : ℤ) (place : StackPlace) : Prop :=
  match i with
  | .movEsp => n = 0 ∧ InKernel n k place
  | .lldt | .leaEax | .movTss => n = 0 ∧ k = 0 ∧ place = .frame
  | .decl => k = n ∧ place = returnPlace n
  | _ => k + 1 = n ∧ place = returnPlace n

/-- What holds of the flag, the contexts below, `k_reenter` and the stack, by where
    the processor is. -/
def PcSound (pc : CpuPc) (iflag : Bool) (n : ℕ) (k : ℤ) (place : StackPlace) : Prop :=
  match pc with
  | .kernelMain => n = 0 ∧ InKernel n k place
  | .setCursor => iflag = false ∧ n = 0 ∧ InKernel n k place
  | .callRestart => iflag = true ∧ n = 0 ∧ InKernel n k place
  | .process => n = 0 ∧ k = -1
  | .save _ => iflag = false ∧ k + 1 = n ∧ (0 < n → place = .kernel)
  | .entered _ ret | .left _ ret => iflag = false ∧ ret = returnLabel n ∧ InKernel n k place
  | .handler _ ret => ret = returnLabel n ∧ InKernel n k place
  | .restart o i => (iflag = false ↔ o ≠ .kernelMain) ∧ (o = .kernelMain → n = 0) ∧
      RestartSound i n k place

/-- Every context on the stack is of the kernel, and was so when it was interrupted. -/
def Suspended : List Context → Prop
  | [] => True
  | c :: rest => PcSound c.pc c.iflag rest.length rest.length .kernel ∧ Suspended rest

/-- The invariant. -/
structure Cpu.Sound (s : Cpu) : Prop where
  pc : PcSound s.pc s.iflag s.suspended.length s.kReenter s.stack
  suspended : Suspended s.suspended

theorem sound_booted : Cpu.booted.Sound :=
  ⟨⟨rfl, rfl, rfl⟩, trivial⟩

/-! ## Its preservation -/

theorem PcSound.of_runsC {pc : CpuPc} {iflag iflag' : Bool} {n : ℕ} {k : ℤ}
    {place : StackPlace} (hpc : pc.RunsC) (h : PcSound pc iflag n k place) :
    PcSound pc iflag' n k place := by
  cases pc <;> simp only [CpuPc.RunsC] at hpc <;> exact h

/-- C code of the kernel is on the kernel stack. -/
theorem PcSound.inKernel {pc : CpuPc} {iflag : Bool} {n : ℕ} {k : ℤ} {place : StackPlace}
    (h : PcSound pc iflag n k place) (hrun : pc.RunsC) (hproc : pc ≠ .process) :
    InKernel n k place := by
  cases pc with
  | kernelMain => exact h.2
  | process => exact absurd rfl hproc
  | handler => exact h.2
  | _ => exact hrun.elim

/-- So is all of it that can be interrupted, but for the first `restart`. -/
theorem PcSound.inKernel_of_iflag {pc : CpuPc} {n : ℕ} {k : ℤ} {place : StackPlace}
    (h : PcSound pc true n k place) (hproc : pc ≠ .process)
    (hboot : ¬ ∃ i, pc = .restart .kernelMain i ∧ i ≠ .movEsp) : InKernel n k place := by
  cases pc with
  | kernelMain => exact h.2
  | callRestart => exact h.2.2
  | process => exact absurd rfl hproc
  | handler => exact h.2
  | restart o i =>
    have ho : o = .kernelMain := by simpa using h.1
    subst ho
    have hi : i = .movEsp := by simpa using hboot
    subst hi
    exact h.2.2.2
  | _ => exact absurd h.1 (by decide)

theorem Cpu.Sound.enter {s : Cpu} (h : s.Sound) (e : Entry)
    (hs : s.pc ≠ .process → InKernel s.suspended.length s.kReenter s.stack) :
    (s.enter e).Sound := by
  unfold Cpu.enter
  split_ifs with hpc
  · -- from a process
    obtain ⟨hn, hk⟩ : s.suspended.length = 0 ∧ s.kReenter = -1 := by
      have := h.pc
      rwa [hpc] at this
    refine ⟨⟨rfl, ?_, ?_⟩, h.suspended⟩
    · rw [hn, hk]
      rfl
    · intro hpos
      exact absurd hpos (by simp [hn])
  · obtain ⟨hk, hst⟩ := hs hpc
    refine ⟨⟨rfl, ?_, fun _ => hst⟩, ?_, h.suspended⟩
    · simp [hk]
    · have := h.pc
      rwa [hk, hst] at this

theorem Cpu.Sound.save {s : Cpu} (h : s.Sound) {e : Entry} (hpc : s.pc = .save e) :
    (s.save e).Sound := by
  obtain ⟨hflag, hk, hst⟩ : s.iflag = false ∧ s.kReenter + 1 = s.suspended.length ∧
      (0 < s.suspended.length → s.stack = .kernel) := by
    have := h.pc
    rwa [hpc] at this
  unfold Cpu.save
  split_ifs with hzero
  · have hn : s.suspended.length = 0 := by omega
    exact ⟨⟨hflag, by rw [hn]; rfl, hk, rfl⟩, h.suspended⟩
  · have hn : 0 < s.suspended.length := by omega
    exact ⟨⟨hflag, (returnLabel_of_pos hn).symm, hk, hst hn⟩, h.suspended⟩

/-- The instructions of `restart` lead from one to the next. -/
theorem RestartSound.step {s : Cpu} {o : Origin} {i : RestartInsn} (hi : i ≠ .iretl)
    (h : RestartSound i s.suspended.length s.kReenter s.stack) :
    RestartSound i.next (s.restart o i).suspended.length (s.restart o i).kReenter
      (s.restart o i).stack := by
  cases i with
  | movEsp =>
    obtain ⟨hn, hk, -⟩ := h
    exact ⟨hn, by rw [hn] at hk; exact hk, rfl⟩
  | movTss =>
    obtain ⟨hn, hk, hst⟩ := h
    exact ⟨by simpa [Cpu.restart, hn] using hk, by simpa [Cpu.restart, returnPlace, hn] using hst⟩
  | decl =>
    obtain ⟨hk, hst⟩ := h
    exact ⟨by simpa [Cpu.restart] using hk, hst⟩
  | iretl => exact absurd rfl hi
  | _ => exact h

theorem Cpu.Sound.restart {s : Cpu} (h : s.Sound) {o : Origin} {i : RestartInsn}
    (hpc : s.pc = .restart o i) (hi : i ≠ .iretl) : (s.restart o i).Sound := by
  obtain ⟨hflag, hn, hr⟩ : (s.iflag = false ↔ o ≠ .kernelMain) ∧
      (o = .kernelMain → s.suspended.length = 0) ∧
      RestartSound i s.suspended.length s.kReenter s.stack := by
    have := h.pc
    rwa [hpc] at this
  have hstep := hr.step (o := o) hi
  cases i <;> first | exact absurd rfl hi | exact ⟨⟨hflag, hn, hstep⟩, h.suspended⟩

/-- `restart` and `restart_reenter` return from the contexts that `save` chose them for. -/
theorem restartSound_returnLabel {n : ℕ} {k : ℤ} {place : StackPlace}
    (h : InKernel n k place) : RestartSound (returnLabel n).insn n k place := by
  cases n with
  | zero => exact ⟨rfl, h⟩
  | succ n => exact ⟨h.kReenter, h.stack⟩

theorem Cpu.Sound.next {s s' : Cpu} (h : s.Sound) (hs : s.next = some s') : s'.Sound := by
  have hpc := h.pc
  cases hat : s.pc with
  | kernelMain => simp [Cpu.next, hat] at hs
  | process => simp [Cpu.next, hat] at hs
  | handler e ret => simp [Cpu.next, hat] at hs
  | setCursor =>
    rw [hat] at hpc
    obtain rfl : { enableInt s with pc := .callRestart } = s' := by simpa [Cpu.next, hat] using hs
    exact ⟨⟨rfl, hpc.2⟩, h.suspended⟩
  | callRestart =>
    rw [hat] at hpc
    obtain ⟨hflag, hn, hk⟩ := hpc
    obtain rfl : { s with pc := .restart .kernelMain .movEsp } = s' := by
      simpa [Cpu.next, hat] using hs
    exact ⟨⟨by simp [hflag], fun _ => hn, hn, hk⟩, h.suspended⟩
  | save e =>
    obtain rfl : s.save e = s' := by simpa [Cpu.next, hat] using hs
    exact h.save hat
  | entered e ret =>
    rw [hat] at hpc
    obtain rfl : { s with pc := .handler e ret, iflag := true } = s' := by
      simpa [Cpu.next, hat] using hs
    exact ⟨hpc.2, h.suspended⟩
  | left e ret =>
    rw [hat] at hpc
    obtain ⟨hflag, hret, hk⟩ := hpc
    obtain rfl : { s with pc := .restart (.entry e) ret.insn } = s' := by
      simpa [Cpu.next, hat] using hs
    subst hret
    exact ⟨⟨by simp [hflag], nofun, restartSound_returnLabel hk⟩, h.suspended⟩
  | restart o i =>
    by_cases hi : i = .iretl
    · -- back into the kernel
      subst hi
      rw [hat] at hpc
      obtain ⟨-, -, hk, hst⟩ := hpc
      cases hplace : s.stack with
      | frame => simp [Cpu.next, hat, hplace] at hs
      | kernel =>
        cases hsus : s.suspended with
        | nil => simp [Cpu.next, hat, hplace, hsus] at hs
        | cons c rest =>
          obtain rfl : { s with pc := c.pc, iflag := c.iflag, suspended := rest } = s' := by
            simpa [Cpu.next, hat, hplace, hsus] using hs
          obtain ⟨hc, hrest⟩ : PcSound c.pc c.iflag rest.length rest.length .kernel ∧
              Suspended rest := by simpa [hsus, Suspended] using h.suspended
          refine ⟨?_, hrest⟩
          have hk' : s.kReenter = rest.length := by simpa [hsus] using hk
          rwa [hk', hplace]
    · obtain rfl : s.restart o i = s' := by cases i <;> simp_all [Cpu.next]
      exact h.restart hat hi

theorem Cpu.Sound.step {s s' : Cpu} (h : s.Sound)
    (hs : CpuStep (fun s => ¬ s.InBootRestart) s s') : s'.Sound := by
  have hpc := h.pc
  cases hs with
  | next hs => exact h.next hs
  | disableInt hrun => exact ⟨hpc.of_runsC hrun, h.suspended⟩
  | enableInt hrun => exact ⟨hpc.of_runsC hrun, h.suspended⟩
  | setCursor hat =>
    rw [hat] at hpc
    exact ⟨⟨rfl, hpc⟩, h.suspended⟩
  | leave e ret hat =>
    rw [hat] at hpc
    exact ⟨⟨rfl, hpc⟩, h.suspended⟩
  | sysCall hrun => exact h.enter .sysCall (hpc.inKernel hrun)
  | interrupt hflag hboot =>
    rw [hflag] at hpc
    exact h.enter .hwint fun hproc => hpc.inKernel_of_iflag hproc hboot
  | iretl o hat hstack flag =>
    rw [hat, hstack] at hpc
    obtain ⟨-, -, hk, hplace⟩ := hpc
    -- to the slot of a process: nothing is below
    have hn : s.suspended.length = 0 := by
      cases hlen : s.suspended.length with
      | zero => rfl
      | succ n => simp [hlen, returnPlace] at hplace
    have hk1 : s.kReenter = -1 := by
      rw [hn] at hk
      omega
    exact ⟨⟨hn, hk1⟩, h.suspended⟩

/-- The run lemma. -/
theorem sound_of_reachable {s : Cpu}
    (h : Reachable (· = Cpu.booted) (CpuStep fun s => ¬ s.InBootRestart) s) : s.Sound :=
  h.invariant (fun _ h0 => h0 ▸ sound_booted) fun _ _ hI hs => hI.step hs

/-! ## Two runs -/

theorem Cpu.nexts_reachable {init C : Cpu → Prop} {n : ℕ} {s s' : Cpu}
    (hs : Reachable init (CpuStep C) s) (h : Cpu.nexts n s = some s') :
    Reachable init (CpuStep C) s' := by
  induction n generalizing s with
  | zero =>
    obtain rfl : s = s' := by simpa [Cpu.nexts] using h
    exact hs
  | succ n ih =>
    obtain ⟨s₁, hnext, hrest⟩ := Option.bind_eq_some_iff.mp h
    exact ih (.step hs (.next hnext)) hrest

/-- The first `restart`, behind `decl`. -/
def Cpu.bootRestart : Cpu := ⟨.restart .kernelMain .popGs, true, -1, .frame, []⟩

theorem bootRestart_reachable (C : Cpu → Prop) :
    Reachable (· = Cpu.booted) (CpuStep C) Cpu.bootRestart :=
  Cpu.nexts_reachable (n := 7) (.step (.init rfl) (.setCursor rfl)) rfl

/-- The first process has run and is interrupted. -/
def Cpu.firstInterrupt : Cpu := ⟨.handler .hwint .restart, true, 0, .kernel, []⟩

theorem firstInterrupt_reachable :
    Reachable (· = Cpu.booted) (CpuStep fun s => ¬ s.InBootRestart) Cpu.firstInterrupt := by
  have hiretl : Reachable (· = Cpu.booted) (CpuStep fun s => ¬ s.InBootRestart)
      ⟨.restart .kernelMain .iretl, true, -1, .frame, []⟩ :=
    Cpu.nexts_reachable (n := 6) (bootRestart_reachable _) rfl
  have hproc : Reachable (· = Cpu.booted) (CpuStep fun s => ¬ s.InBootRestart)
      ⟨.process, true, -1, .frame, []⟩ :=
    .step hiretl (.iretl .kernelMain rfl rfl true)
  have hgate := Reachable.step hproc
    (.interrupt rfl fun ⟨_, hi, _⟩ => CpuPc.noConfusion hi)
  exact Cpu.nexts_reachable (n := 2) hgate rfl

/-! ## Interrupts in `restart` -/

/-- On the kernel stack an interrupt nests. -/
theorem Cpu.nests_of_inKernel {s : Cpu} (hproc : s.pc ≠ .process)
    (h : InKernel s.suspended.length s.kReenter s.stack) : s.Nests := by
  obtain ⟨hk, hst⟩ := h
  have hk0 : s.kReenter + 1 ≠ 0 := by omega
  have henter : s.enter .hwint =
      { s with pc := .save .hwint, iflag := false, suspended := ⟨s.pc, s.iflag⟩ :: s.suspended } :=
    if_neg hproc
  refine ⟨by omega, hst, ?_, ?_⟩ <;> simp [henter, Cpu.save, hk0, hst]

/-- Behind the first instruction of the first `restart` it does not. -/
theorem Cpu.Sound.not_nests {s : Cpu} (h : s.Sound) (hboot : s.InBootRestart) : ¬ s.Nests := by
  obtain ⟨i, hat, hi⟩ := hboot
  have hpc := h.pc
  rw [hat] at hpc
  obtain ⟨-, hn, hr⟩ := hpc
  rw [hn rfl] at hr
  -- the stack pointer is in the slot of the process
  have hst : s.stack = .frame := by
    cases i with
    | movEsp => exact absurd rfl hi
    | lldt | leaEax | movTss => exact hr.2.2
    | _ => exact hr.2
  intro hnests
  exact absurd (hst.symm.trans hnests.stack) (by decide)

theorem restartRun_interrupts_iff {s : Cpu}
    (h : Reachable (· = Cpu.booted) (CpuStep fun s => ¬ s.InBootRestart) s) :
    (∀ o i, s.pc = .restart o i → (s.iflag = false ↔ o ≠ .kernelMain)) ∧
      (s.pc ≠ .process → s.iflag = true → (s.Nests ↔ ¬ s.InBootRestart)) := by
  have hsound := sound_of_reachable h
  constructor
  · intro o i hat
    have hpc := hsound.pc
    rw [hat] at hpc
    exact hpc.1
  · intro hproc hflag
    constructor
    · intro hnests hboot
      exact hsound.not_nests hboot hnests
    · intro hboot
      have hpc := hsound.pc
      rw [hflag] at hpc
      exact Cpu.nests_of_inKernel hproc (hpc.inKernel_of_iflag hproc hboot)

/-- In the first handler an interrupt nests, and the flag is 0 when it ends. -/
theorem restartRun_interrupts_iff_first :
    Cpu.firstInterrupt.Nests ∧
      ((⟨.restart (.entry .hwint) .movEsp, false, 0, .kernel, []⟩ : Cpu).iflag = false ↔
        Origin.entry .hwint ≠ .kernelMain) := by
  constructor
  · have hnests := (restartRun_interrupts_iff firstInterrupt_reachable).2 (by decide) rfl
    exact hnests.mpr fun ⟨_, hi, _⟩ => CpuPc.noConfusion hi
  · have hleft := Reachable.step firstInterrupt_reachable (.leave .hwint .restart rfl)
    exact (restartRun_interrupts_iff (Cpu.nexts_reachable (n := 1) hleft rfl)).1 _ _ rfl

/-- `set_cursor` has set the flag when `kernel_main` calls `restart`: an interrupt finds
    it there behind `decl`, is taken for one of a process, and its registers go to the
    slot. -/
theorem boot_restart_interruptible :
    Reachable (· = Cpu.booted) (CpuStep fun _ => True) Cpu.bootRestart ∧
      Cpu.bootRestart.pc = .restart .kernelMain .popGs ∧ Cpu.bootRestart.iflag = true ∧
      Cpu.bootRestart.kReenter = -1 ∧ (Cpu.bootRestart.enter .hwint).stack = .frame ∧
      ((Cpu.bootRestart.enter .hwint).save .hwint).pc = .entered .hwint .restart :=
  ⟨bootRestart_reachable _, rfl, rfl, rfl, rfl, rfl⟩

end SimpleOs
