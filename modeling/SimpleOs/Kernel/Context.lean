import SimpleOs.Kernel.Process
import SimpleOs.Lib.WordStack

/-!
# Into the kernel and out of it

Model of the gates, `save`, `sys_call`, `HWINT_MASTER`, `restart` and `restart_reenter`
(p_kernel.s:397-508, asm_syscall.S:64-79), one instruction behind the other, with the kernel
stack and the process table as bytes of one memory. `k_reenter`, `ready_process` and `tss.esp0`
are variables of their own.

* `entered_user`, `entered_ring0`: the words that the way in pushes.
* `restart_user`, `restartReenter_ring0`: the way out takes the registers from a frame.
-/

namespace SimpleOs

namespace Context

open ByteMem WordStack

/-! ## The processor -/

/-- The registers in the order of `StackFrame` (process.h:32-52). -/
structure Regs where
  gs : BitVec 16
  fs : BitVec 16
  es : BitVec 16
  ds : BitVec 16
  edi : BitVec 32
  esi : BitVec 32
  ebp : BitVec 32
  ebx : BitVec 32
  edx : BitVec 32
  ecx : BitVec 32
  eax : BitVec 32
  eip : BitVec 32
  cs : BitVec 16
  eflags : BitVec 32
  esp : BitVec 32
  ss : BitVec 16
  deriving DecidableEq

/-- The code runs in ring 0. -/
def Regs.Ring0 (r : Regs) : Prop := r.cs.extractLsb' 0 2 = 0

instance (r : Regs) : Decidable r.Ring0 := inferInstanceAs (Decidable (_ = _))

/-- `esp0` is the one of `tss`. -/
structure State where
  regs : Regs
  mem : Mem
  kReenter : BitVec 32
  readyProcess : Addr
  esp0 : Addr
  ldtr : BitVec 16

/-- Where the linker has put things. `behindHwint n` and `behindSysCall` are the addresses behind
    the calls of `save`; `restart` falls through to `restart_reenter`. -/
structure Image where
  procTable : Addr
  stackTop : Addr
  restart : Addr
  restartReenter : Addr
  hwint : Fin 8 → Addr
  behindHwint : Fin 8 → Addr
  sysCall : Addr
  behindSysCall : Addr
  labels : restart ≠ restartReenter
  table : procTable.toNat + 168 * 35 ≤ 2 ^ 32
  /-- The last words of the kernel stack are not in the table. -/
  stack : ∀ a, InBlock (stackTop - 24) 24 a → ¬ InBlock procTable (168 * 35) a

def Image.slot (img : Image) (p : Pid) : Addr := img.procTable + BitVec.ofNat 32 (168 * p.val)

def State.push (s : State) (w : BitVec 32) : State :=
  { s with
    mem := writeWord s.mem (s.regs.esp - 4) w
    regs := { s.regs with esp := s.regs.esp - 4 } }

/-- The word with the number `i` from `a` on. -/
def word (mem : Mem) (a : Addr) (i : ℕ) : BitVec 32 := readWord mem (a + BitVec.ofNat 32 (4 * i))

/-- The word with the number `i` on the stack. -/
def State.word (s : State) (i : ℕ) : BitVec 32 := Context.word s.mem s.regs.esp i

/-- Take `n` words off the stack. -/
def State.drop (s : State) (n : ℕ) : State :=
  { s with regs := { s.regs with esp := s.regs.esp + BitVec.ofNat 32 (4 * n) } }

/-! ## The way in -/

/-- Through a gate of `init_idt_by_c`. From another ring the processor takes `ss0` and `esp0` of
    `tss` first; it clears `IF`, `TF`, `NT`, `RF` and `VM`. -/
def gate (handler : Addr) (s : State) : State :=
  let r := s.regs
  let s :=
    if r.Ring0 then s
    else (({ s with regs := { r with ss := 16, esp := s.esp0 } }).push (r.ss.setWidth 32)).push r.esp
  let s := ((s.push r.eflags).push (r.cs.setWidth 32)).push r.eip
  { s with regs := { s.regs with eflags := r.eflags &&& 0xfffcbcff, cs := 8, eip := handler } }

def pushal (s : State) : State :=
  let r := s.regs
  (((((((s.push r.eax).push r.ecx).push r.edx).push r.ebx).push r.esp).push r.ebp).push r.esi).push
    r.edi

/-- The four `pushl` of `save`. -/
def pushSegs (s : State) : State :=
  let r := s.regs
  (((s.push (r.ds.setWidth 32)).push (r.es.setWidth 32)).push (r.fs.setWidth 32)).push
    (r.gs.setWidth 32)

/-- `save` (p_kernel.s:480-508). `%edx` is kept in `%esi` while `%dx` carries `%ss`. -/
def save (img : Image) (s : State) : State :=
  let s := pushSegs (pushal s)
  let s :=
    { s with
      regs := { s.regs with ds := s.regs.ss, es := s.regs.ss, fs := s.regs.ss, esi := s.regs.esp }
      kReenter := s.kReenter + 1 }
  let s :=
    if s.kReenter = 0 then
      ({ s with regs := { s.regs with esp := img.stackTop } }).push img.restart
    else s.push img.restartReenter
  -- jmp *RETADDR(%esi)
  { s with regs := { s.regs with eip := word s.mem s.regs.esi 12 } }

def sti (s : State) : State :=
  { s with regs := { s.regs with eflags := s.regs.eflags ||| 0x200 } }

def cli (s : State) : State :=
  { s with regs := { s.regs with eflags := s.regs.eflags &&& 0xfffffdff } }

/-- `HWINT_MASTER` up to the call of the handler. `%al` carries the masks and then `EOI`. -/
def hwintIn (img : Image) (n : Fin 8) (s : State) : State :=
  let s := save img ((gate (img.hwint n) s).push (img.behindHwint n))
  let s := { s with regs := { s.regs with eax := s.regs.eax &&& 0xffffff00 ||| 0x20 } }
  (sti s).push (BitVec.ofNat 32 n.val)

/-- The five pushes of `sys_call`. -/
def pushArgs (s : State) : State :=
  ((((s.push s.regs.esi).push s.readyProcess).push s.regs.edx).push s.regs.ecx).push s.regs.ebx

/-- `sys_call` up to the call through `sys_call_table`. -/
def sysCallIn (img : Image) (s : State) : State :=
  pushArgs (sti (save img ((gate img.sysCall s).push img.behindSysCall)))

/-! ## The way out -/

/-- The four `popl` of `restart_reenter`. -/
def popSegs (s : State) : State :=
  let s' := s.drop 4
  { s' with
    regs := { s'.regs with
      gs := (s.word 0).setWidth 16
      fs := (s.word 1).setWidth 16
      es := (s.word 2).setWidth 16
      ds := (s.word 3).setWidth 16 } }

/-- `%esp` is passed over. -/
def popal (s : State) : State :=
  let s' := s.drop 8
  { s' with
    regs := { s'.regs with
      edi := s.word 0
      esi := s.word 1
      ebp := s.word 2
      ebx := s.word 4
      edx := s.word 5
      ecx := s.word 6
      eax := s.word 7 } }

/-- To another ring it takes the stack as well. -/
def iretl (s : State) : State :=
  let s' := s.drop 3
  let s' :=
    { s' with
      regs := { s'.regs with
        eip := s.word 0
        cs := (s.word 1).setWidth 16
        eflags := s.word 2 } }
  if s'.regs.Ring0 then s'
  else { s' with regs := { s'.regs with esp := s.word 3, ss := (s.word 4).setWidth 16 } }

def restartReenter (s : State) : State :=
  iretl ((popal (popSegs { s with kReenter := s.kReenter - 1 })).drop 1)

/-- The selector behind the frame. -/
def ldtSel (mem : Mem) (a : Addr) : BitVec 16 := mem (a + 73) ++ mem (a + 72)

def restart (s : State) : State :=
  let s := { s with regs := { s.regs with esp := s.readyProcess } }
  let s := { s with ldtr := ldtSel s.mem s.regs.esp }
  let s := { s with regs := { s.regs with eax := s.regs.esp + 72 }, esp0 := s.regs.esp + 72 }
  restartReenter s

/-- `retl` of an entry: to the label that `save` has pushed. -/
def retl (img : Image) (s : State) : State :=
  let label := s.word 0
  let s := s.drop 1
  if label = img.restart then restart s
  else if label = img.restartReenter then restartReenter s
  else s

/-- `HWINT_MASTER` behind the call. `%al` carries the mask. -/
def hwintOut (img : Image) (s : State) : State :=
  let s := { s.drop 1 with regs := { (s.drop 1).regs with ecx := s.word 0 } }
  retl img (cli s)

/-- `sys_call` behind the call. -/
def sysCallOut (img : Image) (s : State) : State :=
  let s := s.drop 4
  let s := { s.drop 1 with regs := { (s.drop 1).regs with esi := s.word 0 } }
  let s := { s with mem := writeWord s.mem (s.regs.esi + 44) s.regs.eax }
  retl img (cli s)

/-! ## Frames -/

/-- The registers in the frame at `a`. -/
def frameAt (mem : Mem) (a : Addr) : Regs where
  gs := (word mem a 0).setWidth 16
  fs := (word mem a 1).setWidth 16
  es := (word mem a 2).setWidth 16
  ds := (word mem a 3).setWidth 16
  edi := word mem a 4
  esi := word mem a 5
  ebp := word mem a 6
  ebx := word mem a 8
  edx := word mem a 9
  ecx := word mem a 10
  eax := word mem a 11
  eip := word mem a 13
  cs := (word mem a 14).setWidth 16
  eflags := word mem a 15
  esp := word mem a 16
  ss := (word mem a 17).setWidth 16

theorem word_add (mem : Mem) (a : Addr) (n i : ℕ) :
    word mem (a + BitVec.ofNat 32 (4 * n)) i = word mem a (n + i) := by
  unfold word
  rw [show a + BitVec.ofNat 32 (4 * n) + BitVec.ofNat 32 (4 * i) =
    a + BitVec.ofNat 32 (4 * (n + i)) by bv_omega]

theorem State.word_drop (s : State) (n i : ℕ) : (s.drop n).word i = s.word (n + i) :=
  word_add s.mem s.regs.esp n i

theorem word_congr {mem mem' : Mem} {a : Addr} {n i : ℕ} (hi : i < n) (hn : 4 * n ≤ 2 ^ 32)
    (h : ∀ b, InBlock a (4 * n) b → mem' b = mem b) : word mem' a i = word mem a i := by
  apply readWord_congr
  intro j hj
  rw [show a + BitVec.ofNat 32 (4 * i) + BitVec.ofNat 32 j =
    a + BitVec.ofNat 32 (4 * i + j) by bv_omega]
  exact h _ (inBlock_add (by omega) hn)

theorem frameAt_congr {mem mem' : Mem} {a : Addr} (h : ∀ b, InBlock a 72 b → mem' b = mem b) :
    frameAt mem' a = frameAt mem a := by
  have hw : ∀ i < 18, word mem' a i = word mem a i :=
    fun i hi => word_congr (n := 18) hi (by omega) h
  simp only [frameAt, Regs.mk.injEq]
  refine ⟨?_, ?_, ?_, ?_, ?_, ?_, ?_, ?_, ?_, ?_, ?_, ?_, ?_, ?_, ?_, ?_⟩ <;> rw [hw _ (by omega)]

theorem ldtSel_congr {mem mem' : Mem} {a : Addr} (h : ∀ b, InBlock a 74 b → mem' b = mem b) :
    ldtSel mem' a = ldtSel mem a := by
  unfold ldtSel
  rw [h (a + 72) (inBlock_add (i := 72) (by omega) (by omega)),
    h (a + 73) (inBlock_add (i := 73) (by omega) (by omega))]

/-- The words that the way in pushes; the processor passes over `kernelEsp` and the return
    address on the way out. -/
def Regs.words (r : Regs) (kernelEsp retaddr : BitVec 32) : List (BitVec 32) :=
  [r.gs.setWidth 32, r.fs.setWidth 32, r.es.setWidth 32, r.ds.setWidth 32, r.edi, r.esi, r.ebp,
    kernelEsp, r.ebx, r.edx, r.ecx, r.eax, retaddr, r.eip, r.cs.setWidth 32, r.eflags, r.esp,
    r.ss.setWidth 32]

theorem setWidth_seg (x : BitVec 16) : (x.setWidth 32).setWidth 16 = x := by
  rw [BitVec.setWidth_setWidth_of_le x (by omega), BitVec.setWidth_eq]

theorem frameAt_words {mem : Mem} {a : Addr} {r : Regs} {kernelEsp retaddr : BitVec 32}
    (h : WordsAt mem a (r.words kernelEsp retaddr)) : frameAt mem a = r := by
  have hw : ∀ (i : ℕ) (w : BitVec 32), (r.words kernelEsp retaddr)[i]? = some w →
      word mem a i = w := fun i w hi => h.word hi
  unfold frameAt
  rw [hw 0 _ rfl, hw 1 _ rfl, hw 2 _ rfl, hw 3 _ rfl, hw 4 _ rfl, hw 5 _ rfl, hw 6 _ rfl,
    hw 8 _ rfl, hw 9 _ rfl, hw 10 _ rfl, hw 11 _ rfl, hw 13 _ rfl, hw 14 _ rfl, hw 15 _ rfl,
    hw 16 _ rfl, hw 17 _ rfl]
  simp only [setWidth_seg]

theorem word_writeWord (mem : Mem) (a : Addr) (v : BitVec 32) {i j : ℕ} (hi : i < 2 ^ 30)
    (hj : j < 2 ^ 30) (hne : i ≠ j) :
    word (writeWord mem (a + BitVec.ofNat 32 (4 * j)) v) a i = word mem a i := by
  apply readWord_congr
  intro k hk
  apply writeWord_out
  unfold InBlock
  bv_omega

/-- The return value goes to the place of `%eax` (`P_EAX_OFFSET`). -/
theorem frameAt_eax (mem : Mem) (a : Addr) (v : BitVec 32) :
    frameAt (writeWord mem (a + 44) v) a = { frameAt mem a with eax := v } := by
  have hw : ∀ i < 18, i ≠ 11 → word (writeWord mem (a + 44) v) a i = word mem a i :=
    fun i hi hne => word_writeWord mem a v (j := 11) (by omega) (by omega) hne
  have heax : word (writeWord mem (a + 44) v) a 11 = v := readWord_writeWord mem (a + 44) v
  simp only [frameAt, Regs.mk.injEq, heax, true_and]
  refine ⟨?_, ?_, ?_, ?_, ?_, ?_, ?_, ?_, ?_, ?_, ?_, ?_, ?_, ?_, ?_⟩ <;>
    rw [hw _ (by omega) (by omega)]

/-! ## The way in pushes the frame -/

/-- The state behind the last `pushl` of `save`. -/
def entered (handler retaddr : Addr) (s : State) : State :=
  pushSegs (pushal ((gate handler s).push retaddr))

/-- What the gate leaves of the registers. -/
def Regs.gated (r : Regs) (handler : Addr) : Regs :=
  { r with eflags := r.eflags &&& 0xfffcbcff, cs := 8, eip := handler }

/-- The words of `l` have been pushed, the last one first. -/
def State.pushes (s : State) (l : List (BitVec 32)) : State :=
  let p := l.foldr WordStack.push (s.mem, s.regs.esp)
  { s with mem := p.1, regs := { s.regs with esp := p.2 } }

theorem State.push_eq (s : State) (w : BitVec 32) : s.push w = s.pushes [w] := rfl

theorem State.pushes_push (s : State) (l : List (BitVec 32)) (w : BitVec 32) :
    (s.pushes l).push w = s.pushes (w :: l) := rfl

theorem State.pushes_pushes (s : State) (l m : List (BitVec 32)) :
    (s.pushes l).pushes m = s.pushes (m ++ l) := by
  simp only [State.pushes, List.foldr_append]

theorem pushal_eq (s : State) (l : List (BitVec 32)) :
    pushal (s.pushes l) = s.pushes (s.regs.edi :: s.regs.esi :: s.regs.ebp ::
      (s.pushes l).regs.esp :: s.regs.ebx :: s.regs.edx :: s.regs.ecx :: s.regs.eax :: l) := by
  simp only [pushal, State.pushes_push]
  rfl

theorem pushSegs_eq (s : State) (l : List (BitVec 32)) :
    pushSegs (s.pushes l) = s.pushes (s.regs.gs.setWidth 32 :: s.regs.fs.setWidth 32 ::
      s.regs.es.setWidth 32 :: s.regs.ds.setWidth 32 :: l) := by
  simp only [pushSegs, State.pushes_push]
  rfl

theorem gate_ring0 {s : State} (handler : Addr) (h : s.regs.Ring0) :
    gate handler s = ({ s with regs := s.regs.gated handler } : State).pushes
      [s.regs.eip, s.regs.cs.setWidth 32, s.regs.eflags] := by
  unfold gate
  simp only [if_pos h, State.push_eq, State.pushes_pushes]
  rfl

theorem gate_user {s : State} (handler : Addr) (h : ¬ s.regs.Ring0) :
    gate handler s =
      ({ s with regs := { s.regs.gated handler with ss := 16, esp := s.esp0 } } : State).pushes
        [s.regs.eip, s.regs.cs.setWidth 32, s.regs.eflags, s.regs.esp,
          s.regs.ss.setWidth 32] := by
  unfold gate
  simp only [if_neg h, State.push_eq, State.pushes_pushes]
  rfl

theorem entered_user {s : State} (handler retaddr : Addr) (h : ¬ s.regs.Ring0) :
    ∃ kernelEsp, entered handler retaddr s =
      ({ s with regs := { s.regs.gated handler with ss := 16, esp := s.esp0 } } : State).pushes
        (s.regs.words kernelEsp retaddr) := by
  unfold entered
  rw [gate_user handler h, State.pushes_push, pushal_eq, pushSegs_eq]
  exact ⟨_, rfl⟩

/-- From ring 0 the processor pushes no stack. -/
theorem entered_ring0 {s : State} (handler retaddr : Addr) (h : s.regs.Ring0) :
    ∃ kernelEsp, entered handler retaddr s =
      ({ s with regs := s.regs.gated handler } : State).pushes
        ((s.regs.words kernelEsp retaddr).take 16) := by
  unfold entered
  rw [gate_ring0 handler h, State.pushes_push, pushal_eq, pushSegs_eq]
  exact ⟨_, rfl⟩

theorem State.pushes_spec (s : State) (l : List (BitVec 32)) (hlen : 4 * l.length ≤ 2 ^ 32) :
    (s.pushes l).regs = { s.regs with esp := s.regs.esp - BitVec.ofNat 32 (4 * l.length) } ∧
      WordsAt (s.pushes l).mem (s.regs.esp - BitVec.ofNat 32 (4 * l.length)) l ∧
      ∀ b, ¬ InBlock (s.regs.esp - BitVec.ofNat 32 (4 * l.length)) (4 * l.length) b →
        (s.pushes l).mem b = s.mem b := by
  obtain ⟨htop, hwords, hout⟩ := push_words l s.mem s.regs.esp hlen
  refine ⟨?_, hwords, hout⟩
  unfold State.pushes
  simp only [htop]

/-! ## The way out takes the registers from a frame -/

/-- Behind `popal` and the `add $4, %esp`. -/
theorem popal_popSegs (s : State) :
    (popal (popSegs s)).drop 1 =
      { s with
        regs := { frameAt s.mem s.regs.esp with
          esp := s.regs.esp + 52, eip := s.regs.eip, cs := s.regs.cs
          eflags := s.regs.eflags, ss := s.regs.ss } } := by
  have hword : ∀ i, (popSegs s).word i = s.word (4 + i) := s.word_drop 4
  have hesp : s.regs.esp + BitVec.ofNat 32 (4 * 4) + BitVec.ofNat 32 (4 * 8) +
      BitVec.ofNat 32 (4 * 1) = s.regs.esp + 52 := by bv_omega
  simp only [popal, State.drop, hword]
  simp only [popSegs, State.drop, hesp]
  rfl

theorem iretl_user {s : State} (h : ¬ (((s.word 1).setWidth 16).extractLsb' 0 2 = 0)) :
    iretl s =
      { s with
        regs := { s.regs with
          eip := s.word 0, cs := (s.word 1).setWidth 16, eflags := s.word 2
          esp := s.word 3, ss := (s.word 4).setWidth 16 } } := if_neg h

theorem iretl_ring0 {s : State} (h : ((s.word 1).setWidth 16).extractLsb' 0 2 = 0) :
    iretl s =
      { s with
        regs := { s.regs with
          eip := s.word 0, cs := (s.word 1).setWidth 16, eflags := s.word 2
          esp := s.regs.esp + 12 } } := if_pos h

/-- In front of the `iretl` of `restart_reenter`. -/
theorem restartReenter_eq (s : State) :
    restartReenter s = iretl
      { s with
        kReenter := s.kReenter - 1
        regs := { frameAt s.mem s.regs.esp with
          esp := s.regs.esp + 52, eip := s.regs.eip, cs := s.regs.cs
          eflags := s.regs.eflags, ss := s.regs.ss } } := by
  unfold restartReenter
  rw [popal_popSegs]

theorem restartReenter_user {s : State} (h : ¬ (frameAt s.mem s.regs.esp).Ring0) :
    restartReenter s =
      { s with regs := frameAt s.mem s.regs.esp, kReenter := s.kReenter - 1 } := by
  have hword : ∀ i, word s.mem (s.regs.esp + 52) i = word s.mem s.regs.esp (13 + i) :=
    word_add s.mem s.regs.esp 13
  rw [restartReenter_eq, iretl_user]
  · simp only [State.word, hword]
    rfl
  · simp only [State.word, hword]
    exact h

theorem restartReenter_ring0 {s : State} (h : (frameAt s.mem s.regs.esp).Ring0) :
    restartReenter s =
      { s with
        regs := { frameAt s.mem s.regs.esp with esp := s.regs.esp + 64, ss := s.regs.ss }
        kReenter := s.kReenter - 1 } := by
  have hword : ∀ i, word s.mem (s.regs.esp + 52) i = word s.mem s.regs.esp (13 + i) :=
    word_add s.mem s.regs.esp 13
  have hesp : s.regs.esp + 52 + 12 = s.regs.esp + 64 := by bv_omega
  rw [restartReenter_eq, iretl_ring0]
  · simp only [State.word, hword, hesp]
    rfl
  · simp only [State.word, hword]
    exact h

/-- What `restart` does with a frame of another ring. -/
def State.resume (s : State) : State :=
  { s with
    regs := frameAt s.mem s.readyProcess
    kReenter := s.kReenter - 1
    esp0 := s.readyProcess + 72
    ldtr := ldtSel s.mem s.readyProcess }

theorem restart_user {s : State} (h : ¬ (frameAt s.mem s.readyProcess).Ring0) :
    restart s = s.resume := by
  unfold restart
  exact restartReenter_user (s := ⟨_, s.mem, s.kReenter, _, _, _⟩) h

theorem retl_restart {img : Image} {s : State} (hlabel : s.word 0 = img.restart)
    (h : ¬ (frameAt s.mem s.readyProcess).Ring0) : retl img s = s.resume := by
  unfold retl
  simp only [if_pos hlabel]
  exact restart_user (s := s.drop 1) h

/-! ## The way out and the memory -/

theorem iretl_mem (s : State) : (iretl s).mem = s.mem := by
  unfold iretl
  dsimp only
  split_ifs <;> rfl

theorem restartReenter_mem (s : State) : (restartReenter s).mem = s.mem := iretl_mem _

theorem restart_mem (s : State) : (restart s).mem = s.mem := restartReenter_mem _

theorem hwintOut_mem (img : Image) (s : State) : (hwintOut img s).mem = s.mem := by
  unfold hwintOut retl
  dsimp only
  split_ifs
  · exact restart_mem _
  · exact restartReenter_mem _
  · rfl

/-! ## The way out of a system call -/

/-- `sys_call` before its `retl`, when the slot on the stack is `a`. -/
def State.answered (s : State) (a : Addr) : State :=
  cli { (s.drop 4).drop 1 with
    mem := writeWord s.mem (a + 44) s.regs.eax
    regs := { ((s.drop 4).drop 1).regs with esi := a } }

theorem sysCallOut_retl (img : Image) {s : State} {a : Addr} (h : s.word 4 = a) :
    sysCallOut img s = retl img (s.answered a) := by
  have hpop : (s.drop 4).word 0 = a := (s.word_drop 4 0).trans h
  unfold sysCallOut
  simp only [hpop]
  rfl

theorem State.answered_esp (s : State) (a : Addr) :
    (s.answered a).regs.esp = s.regs.esp + BitVec.ofNat 32 (4 * 5) := by
  show s.regs.esp + BitVec.ofNat 32 (4 * 4) + BitVec.ofNat 32 (4 * 1) = _
  rw [BitVec.add_assoc, ← BitVec.ofNat_add]

theorem State.answered_mem (s : State) (a : Addr) :
    (s.answered a).mem = writeWord s.mem (a + 44) s.regs.eax := rfl

/-- The words behind the label. -/
theorem State.answered_word (s : State) (a : Addr) (i : ℕ) :
    (s.answered a).word i =
      Context.word (writeWord s.mem (a + 44) s.regs.eax) s.regs.esp (5 + i) := by
  show Context.word _ (s.answered a).regs.esp i = _
  rw [s.answered_esp, word_add]
  rfl

end Context

end SimpleOs
