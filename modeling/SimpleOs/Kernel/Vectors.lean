import SimpleOs.Kernel.IrqMask

/-!
# The interrupt vectors

What the kernel sets up for interrupts before the first process runs: `init_8259a` gives the
lines their vectors (start.c:367-412), `init_idt_by_c` gives the vectors their gates
(start.c:141-247), and `init_keyboard` and `kernel_main` open two lines (tty/keyboard.c:30-31,
start.c:545-546). The controllers are in the machine as whatever the BIOS has left, and take
the bytes that are written to them as the 8259A does.

* `init8259a_eq`: what the controllers are programmed to.
* `idt_apply`: which gate a vector has.
* `booted_vectors`: where an interrupt arrives, and which vectors a process can use.
-/

namespace SimpleOs

namespace Vectors

open ByteMem

/-! ## The controllers -/

/-- Which word of an initialisation a controller waits for; the flags are those of ICW1 that
    say whether ICW3 and ICW4 come. -/
inductive Icw where
  | ready
  | icw2 (cascaded fourth : Bool)
  | icw3 (fourth : Bool)
  | icw4
  deriving DecidableEq

/-- An 8259A. -/
structure I8259 where
  icw : Icw
  base : Byte
  cascade : Byte
  mode : Byte
  mask : Byte
  inService : Byte
  deriving DecidableEq

/-- A write to the even port: ICW1, or the command that ends an interrupt, which takes the
    line of the highest priority out of service. -/
def I8259.command (c : I8259) (b : Byte) : I8259 :=
  if b &&& 0x10 ≠ 0 then
    { c with icw := .icw2 (b &&& 2 = 0) (b &&& 1 ≠ 0), mask := 0, inService := 0 }
  else if b = 0x20 then { c with inService := c.inService &&& (c.inService - 1) }
  else c

/-- A write to the odd port: the next word of an initialisation, or the mask. -/
def I8259.data (c : I8259) (b : Byte) : I8259 :=
  match c.icw with
  | .ready => { c with mask := b }
  | .icw2 true fourth => { c with base := b &&& 0xf8, icw := .icw3 fourth }
  | .icw2 false true => { c with base := b &&& 0xf8, icw := .icw4 }
  | .icw2 false false => { c with base := b &&& 0xf8, icw := .ready }
  | .icw3 true => { c with cascade := b, icw := .icw4 }
  | .icw3 false => { c with cascade := b, icw := .ready }
  | .icw4 => { c with mode := b, icw := .ready }

/-- A controller that is programmed takes a mask. -/
theorem I8259.data_ready {c : I8259} (h : c.icw = .ready) (b : Byte) :
    c.data b = { c with mask := b } := by
  unfold I8259.data
  rw [h]

/-- Master and slave. -/
structure Controllers where
  master : I8259
  slave : I8259
  deriving DecidableEq

abbrev INT_M_PORT : BitVec 16 := 0x20
abbrev INT_S_PORT : BitVec 16 := 0xa0
abbrev INT_M_CTLMASK : BitVec 16 := 0x21
abbrev INT_S_CTLMASK : BitVec 16 := 0xa1
abbrev INT_VECTOR_IRQ0 : Byte := 0x20
abbrev INT_VECTOR_IRQ8 : Byte := 0x28
abbrev INT_VECTOR_SYS_CALL : Byte := 0x90

/-- `io_out8`, as far as the controllers see it. -/
def Controllers.ioOut8 (p : Controllers) (port : BitVec 16) (b : Byte) : Controllers :=
  if port = INT_M_PORT then { p with master := p.master.command b }
  else if port = INT_M_CTLMASK then { p with master := p.master.data b }
  else if port = INT_S_PORT then { p with slave := p.slave.command b }
  else if port = INT_S_CTLMASK then { p with slave := p.slave.data b }
  else p

/-- What `init_8259a` writes (start.c:372-403). -/
def init8259aWrites : List (BitVec 16 × Byte) :=
  [(INT_M_PORT, 0x11), (INT_S_PORT, 0x11), (INT_M_CTLMASK, INT_VECTOR_IRQ0),
    (INT_S_CTLMASK, INT_VECTOR_IRQ8), (INT_M_CTLMASK, 0x4), (INT_S_CTLMASK, 0x2),
    (INT_M_CTLMASK, 0x1), (INT_S_CTLMASK, 0x1), (INT_M_CTLMASK, 0xff), (INT_S_CTLMASK, 0xff)]

/-- What `asm_init_8259a` writes (p_kernel.s:297-336), which nothing calls. -/
def asmInit8259aWrites : List (BitVec 16 × Byte) :=
  [(0x20, 0x11), (0xa0, 0x11), (0x21, 0x20), (0xa1, 0x28), (0x21, 0x04), (0xa1, 0x02),
    (0x21, 0x01), (0xa1, 0x01), (0x21, 0b11111110), (0xa1, 0b11111111)]

def Controllers.writes (p : Controllers) (l : List (BitVec 16 × Byte)) : Controllers :=
  l.foldl (fun p w => p.ioOut8 w.1 w.2) p

/-- The controllers are programmed, whatever they were at before. -/
theorem init8259a_eq (p : Controllers) : p.writes init8259aWrites =
    ⟨⟨.ready, 0x20, 4, 1, 0xff, 0⟩, ⟨.ready, 0x28, 2, 1, 0xff, 0⟩⟩ := rfl

/-- The routine in assembly leaves the line of the clock open. -/
theorem asmInit8259a_eq (p : Controllers) : p.writes asmInit8259aWrites =
    (p.writes init8259aWrites).ioOut8 INT_M_CTLMASK 0xfe := rfl

/-- The vector that a line is given. -/
def Controllers.vector (p : Controllers) (n : Irq) : Byte :=
  if n.val < 8 then p.master.base ||| BitVec.ofNat 8 n.val
  else p.slave.base ||| BitVec.ofNat 8 (n.val - 8)

/-- The mask registers, which `in` and `out` reach once the controllers are programmed. -/
def Controllers.masks (p : Controllers) : Pic := ⟨p.master.mask, p.slave.mask⟩

def Controllers.setMasks (p : Controllers) (m : Pic) : Controllers :=
  ⟨{ p.master with mask := m.master }, { p.slave with mask := m.slave }⟩

/-! ## The gates -/

/-- `Gate` (include/protect.h:25-32). -/
structure Gate where
  offsetLow : BitVec 16
  selector : BitVec 16
  dcount : Byte
  attr : Byte
  offsetHigh : BitVec 16
  deriving DecidableEq

/-- `idt`, which has a gate for every byte. -/
abbrev Idt := Byte → Gate

abbrev SELECTOR_KERNEL_CS : BitVec 16 := 8
abbrev DA_386IGate : Byte := 0x8e
abbrev PRIVILEGE_KRNL : Byte := 0
abbrev PRIVILEGE_USER : Byte := 3

/-- The gate that `init_idt_desc_by_c` makes. -/
def makeGate (descType : Byte) (handler : Addr) (privilege : Byte) : Gate where
  offsetLow := (handler &&& 0xffff).setWidth 16
  selector := SELECTOR_KERNEL_CS
  dcount := 0
  attr := descType ||| privilege <<< 5
  offsetHigh := (handler >>> 16 &&& 0xffff).setWidth 16

/-- `init_idt_desc_by_c` (start.c:249-259). -/
def initIdtDescByC (idt : Idt) (vectorNo descType : Byte) (handler : Addr) (privilege : Byte) :
    Idt := Function.update idt vectorNo (makeGate descType handler privilege)

/-- The entries of the kernel in p_kernel.s and asm_syscall.S. -/
inductive Handler where
  | divideError | singleStepException | nmi | breakpointException | overflow | boundsCheck
  | invalOpcode | coprNotAvailable | doubleFault | coprSegOverrun | invalTss | segmentNotPresent
  | stackException | generalProtection | pageFault | coprError
  | hwint (n : Irq)
  | sysCall
  deriving DecidableEq

/-- The calls of `init_idt_desc_by_c` for the exceptions (start.c:183-198). -/
def exceptionCalls : List (Byte × Handler × Byte) :=
  [(0x0, .divideError, PRIVILEGE_KRNL), (0x1, .singleStepException, PRIVILEGE_KRNL),
    (0x2, .nmi, PRIVILEGE_KRNL), (0x3, .breakpointException, PRIVILEGE_KRNL),
    (0x4, .overflow, PRIVILEGE_KRNL), (0x5, .boundsCheck, PRIVILEGE_KRNL),
    (0x6, .invalOpcode, PRIVILEGE_KRNL), (0x7, .coprNotAvailable, PRIVILEGE_KRNL),
    (0x8, .doubleFault, PRIVILEGE_KRNL), (0x9, .coprSegOverrun, PRIVILEGE_KRNL),
    (0xa, .invalTss, PRIVILEGE_KRNL), (0xb, .segmentNotPresent, PRIVILEGE_KRNL),
    (0xc, .stackException, PRIVILEGE_KRNL), (0xd, .generalProtection, PRIVILEGE_KRNL),
    (0xe, .pageFault, PRIVILEGE_KRNL), (0x10, .coprError, PRIVILEGE_KRNL)]

/-- Those for the lines (start.c:218-233), which are numbered from `INT_VECTOR_IRQ0` on. -/
def irqCalls : List (Byte × Handler × Byte) :=
  (List.finRange 16).map fun n =>
    (INT_VECTOR_IRQ0 + BitVec.ofNat 8 n.val, .hwint n, PRIVILEGE_KRNL)

/-- All of them, in their order. -/
def idtCalls : List (Byte × Handler × Byte) :=
  exceptionCalls ++ irqCalls ++ [(INT_VECTOR_SYS_CALL, .sysCall, PRIVILEGE_USER)]

/-- `init_idt_by_c` (start.c:141-247), with the addresses that the linker gives the entries. -/
def initIdtByC (addr : Handler → Addr) (idt : Idt) : Idt :=
  idtCalls.foldl (fun idt c => initIdtDescByC idt c.1 DA_386IGate (addr c.2.1) c.2.2) idt

/-- `idt` in the BSS. -/
def zeroIdt : Idt := fun _ => ⟨0, 0, 0, 0, 0⟩

/-! ### What the processor takes from a gate -/

def Gate.offset (g : Gate) : Addr := g.offsetHigh ++ g.offsetLow

def Gate.present (g : Gate) : Prop := g.attr.getLsbD 7 = true

/-- An interrupt gate of 32 bits. -/
def Gate.isInterrupt (g : Gate) : Prop := g.attr &&& 0x1f = 0x0e

def Gate.dpl (g : Gate) : BitVec 2 := g.attr.extractLsb' 5 2

/-- `int` from a ring that is not the kernel's gets through the gate. -/
def Gate.passes (g : Gate) (cpl : BitVec 2) : Prop := g.present ∧ cpl ≤ g.dpl

instance (g : Gate) : Decidable g.present := inferInstanceAs (Decidable (_ = _))
instance (g : Gate) : Decidable g.isInterrupt := inferInstanceAs (Decidable (_ = _))
instance (g : Gate) (cpl : BitVec 2) : Decidable (g.passes cpl) :=
  inferInstanceAs (Decidable (_ ∧ _))

/-- The offset comes back. -/
theorem makeGate_offset (descType : Byte) (handler : Addr) (privilege : Byte) :
    (makeGate descType handler privilege).offset = handler := by
  have hlow : (handler &&& 0xffff).setWidth 16 = handler.setWidth 16 := by
    rw [BitVec.setWidth_and]
    exact BitVec.and_allOnes
  have hhigh : (handler >>> 16 &&& 0xffff).setWidth 16 = (handler >>> 16).setWidth 16 := by
    rw [BitVec.setWidth_and]
    exact BitVec.and_allOnes
  unfold Gate.offset makeGate
  dsimp only
  rw [hlow, hhigh]
  apply BitVec.eq_of_getLsbD_eq
  intro i hi
  rw [BitVec.getLsbD_append]
  by_cases h : i < 16
  · simp [h]
  · simp [h, show i - 16 < 16 by omega, show 16 + (i - 16) = i by omega]

/-! ### The table -/

section

variable {ι κ α : Type*} [DecidableEq κ] {key : ι → κ} {val : ι → α}

/-- Updates of other keys. -/
theorem foldl_update_other {l : List ι} {k : κ} (hk : k ∉ l.map key) (f : κ → α) :
    l.foldl (fun f c => Function.update f (key c) (val c)) f k = f k := by
  induction l generalizing f with
  | nil => rfl
  | cons c l ih =>
    rw [List.map_cons, List.mem_cons, not_or] at hk
    rw [List.foldl_cons, ih hk.2, Function.update_of_ne hk.1]

/-- Every key is updated once. -/
theorem foldl_update_apply {l : List ι} (hl : (l.map key).Nodup) {c : ι} (hc : c ∈ l) (f : κ → α) :
    l.foldl (fun f c => Function.update f (key c) (val c)) f (key c) = val c := by
  induction l generalizing f with
  | nil => exact absurd hc List.not_mem_nil
  | cons d l ih =>
    rw [List.map_cons, List.nodup_cons] at hl
    rw [List.foldl_cons]
    rcases List.mem_cons.mp hc with rfl | hc
    · rw [foldl_update_other hl.1]
      exact Function.update_self ..
    · exact ih hl.2 hc _

end

theorem idtCalls_nodup : (idtCalls.map fun c => c.1).Nodup := by decide

/-- A vector has the gate of its call, and the others have none. -/
theorem idt_apply (addr : Handler → Addr) (v : Byte) :
    (∀ c ∈ idtCalls, c.1 = v →
        initIdtByC addr zeroIdt v = makeGate DA_386IGate (addr c.2.1) c.2.2) ∧
      (v ∉ idtCalls.map (fun c => c.1) → initIdtByC addr zeroIdt v = ⟨0, 0, 0, 0, 0⟩) := by
  refine ⟨fun c hc hv => ?_, fun hv => ?_⟩
  · subst hv
    exact foldl_update_apply idtCalls_nodup hc _
  · exact foldl_update_other hv _

/-! ## Booting -/

/-- What `irq_table` holds. -/
inductive IrqHandler where
  | spuriousIrq
  | clockHandler
  | keyboardHandler
  deriving DecidableEq

abbrev CLOCK_IRQ : Irq := 0
abbrev KEYBOARD_IRQ : Irq := 1

structure Setup where
  pics : Controllers
  idt : Idt
  irqTable : Irq → IrqHandler

/-- `init_8259a` (start.c:367-412). -/
def Setup.init8259a (s : Setup) : Setup :=
  { s with pics := s.pics.writes init8259aWrites, irqTable := fun _ => .spuriousIrq }

/-- `put_irq_handler` (include/irq.h:27-31). -/
def Setup.putIrqHandler (s : Setup) (irq : Irq) (handler : IrqHandler) : Setup :=
  { s with
    pics := s.pics.setMasks (disableIrq s.pics.masks irq.arg).2
    irqTable := Function.update s.irqTable irq handler }

def Setup.enableIrq (s : Setup) (irq : Irq) : Setup :=
  { s with pics := s.pics.setMasks (SimpleOs.enableIrq s.pics.masks irq.arg) }

/-- The interrupts when `kernel_main` calls `init_proc`: `init_8259a`, `init_idt_by_c` and
    `init_keyboard` in the order of `init` (start.c:566-576), and the clock in `kernel_main`. -/
def booted (addr : Handler → Addr) (p : Controllers) : Setup :=
  let s := Setup.init8259a ⟨p, zeroIdt, fun _ => .spuriousIrq⟩
  let s := { s with idt := initIdtByC addr s.idt }
  let s := (s.putIrqHandler KEYBOARD_IRQ .keyboardHandler).enableIrq KEYBOARD_IRQ
  (s.putIrqHandler CLOCK_IRQ .clockHandler).enableIrq CLOCK_IRQ

/-- The controllers, whatever they were at before. -/
theorem booted_pics (addr : Handler → Addr) (p : Controllers) : (booted addr p).pics =
    ⟨⟨.ready, 0x20, 4, 1, 0xfc, 0⟩, ⟨.ready, 0x28, 2, 1, 0xff, 0⟩⟩ := by
  simp only [booted, Setup.init8259a, Setup.putIrqHandler, Setup.enableIrq, init8259a_eq]
  decide

/-! ### Where interrupts arrive -/

theorem kernelGate_passes (handler : Addr) (cpl : BitVec 2) :
    (makeGate DA_386IGate handler PRIVILEGE_KRNL).passes cpl ↔ cpl = 0 := by
  show (DA_386IGate ||| PRIVILEGE_KRNL <<< 5).getLsbD 7 = true ∧
    cpl ≤ (DA_386IGate ||| PRIVILEGE_KRNL <<< 5).extractLsb' 5 2 ↔ cpl = 0
  revert cpl
  decide

theorem kernelGate_isInterrupt (handler : Addr) :
    (makeGate DA_386IGate handler PRIVILEGE_KRNL).isInterrupt := by
  show (DA_386IGate ||| PRIVILEGE_KRNL <<< 5) &&& 0x1f = 0x0e
  decide

theorem userGate_passes (handler : Addr) (cpl : BitVec 2) :
    (makeGate DA_386IGate handler PRIVILEGE_USER).passes cpl := by
  show (DA_386IGate ||| PRIVILEGE_USER <<< 5).getLsbD 7 = true ∧
    cpl ≤ (DA_386IGate ||| PRIVILEGE_USER <<< 5).extractLsb' 5 2
  revert cpl
  decide

theorem zeroGate_passes (cpl : BitVec 2) : ¬ (⟨0, 0, 0, 0, 0⟩ : Gate).passes cpl := by
  rintro ⟨hpresent, -⟩
  exact absurd hpresent (by decide)

/-- The privilege of a call. -/
theorem idtCalls_privilege : ∀ c ∈ idtCalls,
    if c.1 = INT_VECTOR_SYS_CALL then c.2 = (.sysCall, PRIVILEGE_USER) else c.2.2 = PRIVILEGE_KRNL := by
  decide

theorem hwint_mem (n : Irq) :
    (INT_VECTOR_IRQ0 + BitVec.ofNat 8 n.val, .hwint n, PRIVILEGE_KRNL) ∈ idtCalls := by
  refine List.mem_append_left _ (List.mem_append_right _ ?_)
  exact List.mem_map_of_mem (List.mem_finRange n)

/-- The lines have the vectors from `INT_VECTOR_IRQ0` on. -/
theorem booted_vector (addr : Handler → Addr) (p : Controllers) (n : Irq) :
    (booted addr p).pics.vector n = INT_VECTOR_IRQ0 + BitVec.ofNat 8 n.val := by
  rw [booted_pics]
  revert n
  decide

/-- When the first process starts, the lines of the clock and of the keyboard are open and all
    others are masked. Every line arrives at its own entry, through an interrupt gate; the
    handlers of the two lines are in `irq_table`. Of all vectors the processes and the tasks
    can use the one of the system calls only. -/
theorem booted_vectors (addr : Handler → Addr) (p : Controllers) :
    (∀ n : Irq, (booted addr p).pics.masks.mask.getLsbD n.val = false ↔
        n = CLOCK_IRQ ∨ n = KEYBOARD_IRQ) ∧
      ((booted addr p).irqTable CLOCK_IRQ = .clockHandler ∧
        (booted addr p).irqTable KEYBOARD_IRQ = .keyboardHandler) ∧
      (∀ n : Irq, ((booted addr p).idt ((booted addr p).pics.vector n)).offset = addr (.hwint n) ∧
        ((booted addr p).idt ((booted addr p).pics.vector n)).isInterrupt) ∧
      (∀ (v : Byte) (cpl : BitVec 2), cpl ≠ 0 →
        (((booted addr p).idt v).passes cpl ↔ v = INT_VECTOR_SYS_CALL)) ∧
      ((booted addr p).idt INT_VECTOR_SYS_CALL).offset = addr .sysCall := by
  have hidt : (booted addr p).idt = initIdtByC addr zeroIdt := rfl
  have hsys : (INT_VECTOR_SYS_CALL, Handler.sysCall, PRIVILEGE_USER) ∈ idtCalls :=
    List.mem_append_right _ (List.mem_singleton_self _)
  refine ⟨?_, ⟨rfl, rfl⟩, fun n => ?_, fun v cpl hcpl => ?_, ?_⟩
  · rw [booted_pics]
    decide
  · rw [booted_vector, hidt, (idt_apply addr _).1 _ (hwint_mem n) rfl]
    exact ⟨makeGate_offset _ _ _, kernelGate_isInterrupt _⟩
  · rw [hidt]
    by_cases hv : v ∈ idtCalls.map fun c => c.1
    · obtain ⟨c, hc, rfl⟩ := List.mem_map.mp hv
      have hprivilege := idtCalls_privilege c hc
      rw [(idt_apply addr _).1 c hc rfl]
      split at hprivilege
      · rename_i hsysCall
        rw [hprivilege]
        exact iff_of_true (userGate_passes _ _) hsysCall
      · rename_i hother
        rw [hprivilege, kernelGate_passes]
        exact iff_of_false hcpl hother
    · rw [(idt_apply addr v).2 hv]
      refine iff_of_false (zeroGate_passes cpl) ?_
      rintro rfl
      exact hv (List.mem_map_of_mem hsys)
  · rw [hidt, (idt_apply addr _).1 _ hsys rfl]
    exact makeGate_offset _ _ _

end Vectors

end SimpleOs
