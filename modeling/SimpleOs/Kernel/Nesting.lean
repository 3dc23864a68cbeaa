import Mathlib.Data.List.Perm.Subperm
import SimpleOs.Kernel.Interrupts
import SimpleOs.Kernel.Vectors

/-!
# Nested interrupts

`HWINT_MASTER` (p_kernel.s:397-414) masks its own line, ends the interrupt and lets others in
while the handler runs; behind the handler it opens the line again. Model of the entries of
the kernel that are on the stack, of `k_reenter`, and of the master of the two controllers as
`kernel_main` has left it. C code, in the kernel or in a process, can clear and set the
interrupt flag and make system calls. The controller requests a line that is open when no line
of its priority or a higher one is in service; spurious interrupts are left out.

* `nesting_lines`: no line interrupts its own handler, and at most two handlers are nested.
* `nesting_reenter`: `restart` is reached from the outermost entry only.
-/

namespace SimpleOs

namespace Nesting

open ByteMem Transition Vectors

/-! ## The machine -/

/-- A line of the master. -/
abbrev Line := Fin 8

/-- What has entered the kernel. -/
inductive Source where
  | irq (n : Line)
  | sysCall
  deriving DecidableEq

/-- Where an entry is: at `save`, at the three instructions that mask the line, at the end of
    the interrupt, at `sti`, in C code, at the three instructions that open the line again,
    and at `retl`. -/
inductive Stage where
  | save
  | mask
  | eoi
  | sti
  | handler
  | unmask
  | ret
  deriving DecidableEq

/-- An entry on the stack, with what `save` has pushed and the flag of the code that it has
    interrupted. -/
structure Entered where
  source : Source
  stage : Stage
  label : Label
  iflag : Bool
  deriving DecidableEq

/-- `stack` has the innermost entry first. Below all of them is `kernel_main`, and once this
    has called `restart`, a process. -/
structure Core where
  master : I8259
  iflag : Bool
  kReenter : ℤ
  booting : Bool
  stack : List Entered
  deriving DecidableEq

/-- C code runs. -/
def Core.RunsC (s : Core) : Prop := ∀ f ∈ s.stack.head?, f.stage = .handler

/-- The controller requests the line. -/
def Core.Requests (s : Core) (n : Line) : Prop :=
  s.master.mask.getLsbD n.val = false ∧ ∀ m ≤ n, s.master.inService.getLsbD m.val = false

/-- Through the gate. `save` has not pushed anything yet. -/
def Core.enter (s : Core) (source : Source) : Core :=
  { s with iflag := false, stack := ⟨source, .save, .restart, s.iflag⟩ :: s.stack }

/-- Where `save` returns to. -/
def Source.behindSave : Source → Stage
  | .irq _ => .mask
  | .sysCall => .sti

/-- `save` (p_kernel.s:480-508). -/
def Core.save (s : Core) (f : Entered) (rest : List Entered) : Core :=
  let label : Label := if s.kReenter + 1 = 0 then .restart else .restartReenter
  { s with
    kReenter := s.kReenter + 1
    stack := { f with stage := f.source.behindSave, label := label } :: rest }

/-- An instruction of the entry `f` that neither calls C code nor returns. -/
def Core.insn (s : Core) (f : Entered) (rest : List Entered) : Option Core :=
  match f.stage, f.source with
  | .save, _ => some (s.save f rest)
  | .mask, .irq n =>
    some { s with
      master := s.master.data (s.master.mask ||| 1 <<< n.val)
      stack := { f with stage := .eoi } :: rest }
  | .eoi, .irq _ =>
    some { s with master := s.master.command 0x20, stack := { f with stage := .sti } :: rest }
  | .sti, _ => some { s with iflag := true, stack := { f with stage := .handler } :: rest }
  | .unmask, .irq n =>
    some { s with
      master := s.master.data (s.master.mask &&& ~~~(1 <<< n.val : Byte))
      stack := { f with stage := .ret } :: rest }
  | _, _ => none

/-- Behind the `cli`. -/
def Entered.leave (f : Entered) : Entered :=
  match f.source with
  | .irq _ => { f with stage := .unmask }
  | .sysCall => { f with stage := .ret }

inductive CoreStep (s : Core) : Core → Prop
  /-- `cli` and `sti` in C code. -/
  | flag (b : Bool) (h : s.RunsC) : CoreStep s { s with iflag := b }
  | interrupt (n : Line) (hflag : s.iflag = true) (h : s.Requests n) :
      CoreStep s { s.enter (.irq n) with
        master := { s.master with inService := s.master.inService ||| 1 <<< n.val } }
  | sysCall (h : s.RunsC) : CoreStep s (s.enter .sysCall)
  | insn {f : Entered} {rest : List Entered} {s' : Core} (hs : s.stack = f :: rest)
      (h : s.insn f rest = some s') : CoreStep s s'
  /-- The C code of an entry returns, and `cli`. -/
  | leave {f : Entered} {rest : List Entered} (hs : s.stack = f :: rest)
      (h : f.stage = .handler) : CoreStep s { s with iflag := false, stack := f.leave :: rest }
  /-- `restart` takes the stack of a process, and its flags. -/
  | restart {f : Entered} {rest : List Entered} (hs : s.stack = f :: rest) (h : f.stage = .ret)
      (hlabel : f.label = .restart) (b : Bool) :
      CoreStep s { s with iflag := b, kReenter := s.kReenter - 1, stack := [] }
  | restartReenter {f : Entered} {rest : List Entered} (hs : s.stack = f :: rest)
      (h : f.stage = .ret) (hlabel : f.label = .restartReenter) :
      CoreStep s { s with iflag := f.iflag, kReenter := s.kReenter - 1, stack := rest }
  /-- `kernel_main` calls `restart`. -/
  | boot (hs : s.stack = []) (h : s.booting = true) (b : Bool) :
      CoreStep s { s with iflag := b, kReenter := s.kReenter - 1, booting := false }

/-- `kernel_main` has opened the line of the clock; `k_reenter` is initialised with 0
    (process.c:27). -/
def CoreBooted (s : Core) : Prop :=
  (∃ addr p, s.master = (booted addr p).pics.master) ∧ s.iflag = false ∧ s.kReenter = 0 ∧
    s.booting = true ∧ s.stack = []

/-! ## The invariant -/

/-- The line that an entry is for. -/
def Entered.line (f : Entered) : Option Line :=
  match f.source with
  | .irq n => some n
  | .sysCall => none

/-- The lines with an entry on the stack. -/
def Core.lines (s : Core) : List Line := s.stack.filterMap Entered.line

/-- An entry there has masked its line and not opened it yet. -/
def Stage.masking : Stage → Bool
  | .eoi | .sti | .handler | .unmask => true
  | .save | .mask | .ret => false

def Entered.masks (f : Entered) (n : Line) : Prop := f.source = .irq n ∧ f.stage.masking = true

instance (f : Entered) (n : Line) : Decidable (f.masks n) := inferInstanceAs (Decidable (_ ∧ _))

/-- What is in service while `f` is the innermost entry. -/
def Entered.serving (f : Entered) : Byte :=
  match f.source, f.stage with
  | .irq n, .save => 1 <<< n.val
  | .irq n, .mask => 1 <<< n.val
  | .irq n, .eoi => 1 <<< n.val
  | _, _ => 0

def servingOf : List Entered → Byte
  | [] => 0
  | f :: _ => f.serving

/-- Behind `save`, `restart` is the label of the entry that has interrupted a process. -/
def Labelled (booting : Bool) : List Entered → Prop
  | [] => True
  | f :: rest =>
    (f.stage ≠ .save → (f.label = .restart ↔ rest = [] ∧ booting = false)) ∧ Labelled booting rest

/-- The entries that `save` has counted. -/
def counted (l : List Entered) : ℤ := (l.countP fun f => f.stage ≠ .save : ℕ)

/-- The state of an interrupt controller whose mask was `base` when the first process started. -/
structure Nested (base : Byte) (s : Core) : Prop where
  ready : s.master.icw = .ready
  serving : s.master.inService = servingOf s.stack
  mask : ∀ n : Line, s.master.mask.getLsbD n.val = true ↔
    base.getLsbD n.val = true ∨ ∃ f ∈ s.stack, f.masks n
  nodup : s.lines.Nodup
  opened : ∀ n ∈ s.lines, base.getLsbD n.val = false
  flag : s.iflag = true → s.RunsC
  below : ∀ f ∈ s.stack.tail, f.stage = .handler
  depth : s.kReenter + (if s.booting then 0 else 1) = counted s.stack
  labelled : Labelled s.booting s.stack

/-! ### Bits -/

theorem bit_getLsbD : ∀ n m : Line, (1 <<< n.val : Byte).getLsbD m.val = decide (m = n) := by
  decide

/-- The command ends the only interrupt that is in service. -/
theorem eoi_single : ∀ n : Line, (1 <<< n.val : Byte) &&& ((1 <<< n.val : Byte) - 1) = 0 := by
  decide

theorem or_getLsbD (b : Byte) (n m : Line) :
    (b ||| 1 <<< n.val).getLsbD m.val = true ↔ b.getLsbD m.val = true ∨ m = n := by
  rw [BitVec.getLsbD_or, bit_getLsbD, Bool.or_eq_true, decide_eq_true_iff]

theorem and_not_getLsbD (b : Byte) (n m : Line) :
    (b &&& ~~~(1 <<< n.val : Byte)).getLsbD m.val = true ↔ b.getLsbD m.val = true ∧ m ≠ n := by
  have hlt := m.isLt
  rw [BitVec.getLsbD_and, BitVec.getLsbD_not, bit_getLsbD]
  simp [hlt]

section

variable {base : Byte} {s : Core} {f : Entered} {rest : List Entered}

/-- When C code runs, all entries are at C code, and nothing is in service. -/
theorem Nested.handlers (h : Nested base s) (hC : s.RunsC) : ∀ f ∈ s.stack, f.stage = .handler := by
  cases hs : s.stack with
  | nil => exact fun f hf => absurd hf List.not_mem_nil
  | cons f rest =>
    have hbelow := h.below
    have htop := hC f (by rw [hs]; rfl)
    rw [hs] at hbelow
    exact List.forall_mem_cons.mpr ⟨htop, hbelow⟩

theorem Entered.serving_handler (h : f.stage = .handler) : f.serving = 0 := by
  unfold Entered.serving
  rw [h]
  cases f.source with
  | irq n => rfl
  | sysCall => rfl

theorem Nested.idle (h : Nested base s) (hC : s.RunsC) : s.master.inService = 0 := by
  rw [h.serving]
  cases hs : s.stack with
  | nil => rfl
  | cons f rest => exact Entered.serving_handler (hC f (by rw [hs]; rfl))

theorem Entered.line_of_masks {n : Line} (h : f.masks n) : f.line = some n := by
  unfold Entered.line
  rw [h.1]

/-- A change of the innermost entry. -/
theorem Nested.replace (h : Nested base s) (hs : s.stack = f :: rest) {f' : Entered} {s' : Core}
    (hstack : s'.stack = f' :: rest) (hbooting : s'.booting = s.booting)
    (hsource : f'.source = f.source) (hready : s'.master.icw = .ready)
    (hserving : s'.master.inService = f'.serving)
    (hmask : ∀ n : Line, s'.master.mask.getLsbD n.val = true ↔
      base.getLsbD n.val = true ∨ f'.masks n ∨ ∃ g ∈ rest, g.masks n)
    (hflag : s'.iflag = true → f'.stage = .handler)
    (hdepth : s'.kReenter - s.kReenter = counted [f'] - counted [f])
    (hlabel : f'.stage ≠ .save → (f'.label = .restart ↔ rest = [] ∧ s.booting = false)) :
    Nested base s' := by
  have hlines : s'.lines = s.lines := by
    have hline : f'.line = f.line := by
      unfold Entered.line
      rw [hsource]
    unfold Core.lines
    rw [hs, hstack, List.filterMap_cons, List.filterMap_cons, hline]
  refine ⟨hready, ?_, fun n => ?_, ?_, ?_, fun hi => ?_, ?_, ?_, ?_⟩
  · rw [hserving, hstack]
    rfl
  · rw [hmask n, hstack]
    simp only [List.mem_cons, exists_eq_or_imp]
  · rw [hlines]
    exact h.nodup
  · rw [hlines]
    exact h.opened
  · intro g hg
    rw [hstack, List.head?_cons, Option.mem_some_iff] at hg
    exact hg ▸ hflag hi
  · have hbelow := h.below
    rw [hs] at hbelow
    rw [hstack]
    exact hbelow
  · have hd := h.depth
    have hsplit : ∀ g : Entered, counted (g :: rest) = counted [g] + counted rest := by
      intro g
      unfold counted
      rw [List.countP_cons, List.countP_cons, List.countP_nil]
      omega
    rw [hs, hsplit] at hd
    rw [hstack, hsplit, hbooting]
    omega
  · have hl := h.labelled
    rw [hs] at hl
    rw [hstack, hbooting]
    exact ⟨hlabel, hl.2⟩

/-! ### The entries -/

theorem counted_handlers {l : List Entered} (h : ∀ f ∈ l, f.stage = .handler) :
    counted l = l.length := by
  have hall : l.countP (fun f => f.stage ≠ .save) = l.length := by
    rw [List.countP_eq_length]
    intro f hf
    simp [h f hf]
  unfold counted
  rw [hall]

/-- The innermost entry counts unless it is before `save`. -/
theorem counted_cons (f : Entered) {rest : List Entered} (h : ∀ g ∈ rest, g.stage = .handler) :
    counted (f :: rest) = rest.length + (if f.stage = .save then 0 else 1) := by
  have hrest := counted_handlers h
  unfold counted at hrest ⊢
  rw [List.countP_cons]
  by_cases hsave : f.stage = .save
  · simp only [hsave, ne_eq, not_true, decide_false, if_true, Bool.false_eq_true, if_false] at *
    omega
  · simp only [hsave, ne_eq, not_false_iff, decide_true, if_true, if_false] at *
    omega

/-- The entry of a line is the only one for it. -/
theorem Nested.not_masks (h : Nested base s) (hs : s.stack = f :: rest) {n : Line}
    (hn : f.source = .irq n) : ¬ ∃ g ∈ rest, g.masks n := by
  rintro ⟨g, hg, hmasks⟩
  have hnodup := h.nodup
  have hline : f.line = some n := by
    unfold Entered.line
    rw [hn]
  unfold Core.lines at hnodup
  rw [hs, List.filterMap_cons, hline] at hnodup
  exact (List.nodup_cons.mp hnodup).1
    (List.mem_filterMap.mpr ⟨g, hg, Entered.line_of_masks hmasks⟩)

/-- The line of an entry was open. -/
theorem Nested.line_opened (h : Nested base s) (hs : s.stack = f :: rest) {n : Line}
    (hn : f.source = .irq n) : base.getLsbD n.val = false := by
  apply h.opened
  have hline : f.line = some n := by
    unfold Entered.line
    rw [hn]
  unfold Core.lines
  rw [hs, List.filterMap_cons, hline]
  exact List.mem_cons_self ..

/-- What the invariant says about an entry at another stage than C code. -/
theorem Nested.top (h : Nested base s) (hs : s.stack = f :: rest) :
    s.master.inService = f.serving ∧
      (∀ n : Line, s.master.mask.getLsbD n.val = true ↔
        base.getLsbD n.val = true ∨ f.masks n ∨ ∃ g ∈ rest, g.masks n) ∧
      (f.stage ≠ .handler → s.iflag = false) ∧
      (∀ g ∈ rest, g.stage = .handler) ∧
      (f.stage ≠ .save → (f.label = .restart ↔ rest = [] ∧ s.booting = false)) := by
  have hmask := h.mask
  have hlabelled := h.labelled
  have hbelow := h.below
  rw [hs] at hlabelled hbelow
  refine ⟨?_, fun n => ?_, fun hstage => ?_, hbelow, hlabelled.1⟩
  · rw [h.serving, hs]
    rfl
  · rw [hmask n, hs]
    simp only [List.mem_cons, exists_eq_or_imp]
  · rw [← Bool.not_eq_true]
    exact fun hi => hstage (h.flag hi f (by rw [hs]; rfl))

/-! ### The steps -/

theorem stage_not_masks (h : f.stage.masking = false) (n : Line) : ¬ f.masks n := fun hmasks =>
  absurd (h.symm.trans hmasks.2) (by decide)

/-- `save` pushes `restart` for the entry that has interrupted a process. -/
theorem Nested.save (h : Nested base s) (hs : s.stack = f :: rest) (hstage : f.stage = .save) :
    Nested base (s.save f rest) := by
  obtain ⟨hserving, hmask, hflag, hbelow, -⟩ := h.top hs
  have hdepth := h.depth
  rw [hs, counted_cons f hbelow, if_pos hstage] at hdepth
  have hlabel : (if s.kReenter + 1 = 0 then Label.restart else .restartReenter) = .restart ↔
      rest = [] ∧ s.booting = false := by
    rw [← List.length_eq_zero_iff]
    cases hb : s.booting with
    | true =>
      rw [hb, if_pos rfl] at hdepth
      rw [if_neg (by omega)]
      simp
    | false =>
      rw [hb, if_neg (by decide)] at hdepth
      by_cases hzero : s.kReenter + 1 = 0
      · rw [if_pos hzero]
        simp only [true_iff, and_true]
        omega
      · rw [if_neg hzero]
        simp only [reduceCtorEq, false_iff, and_true]
        omega
  have hbehind : f.source.behindSave ≠ .save := by
    cases f.source with
    | irq n => nofun
    | sysCall => nofun
  have hmasks : ∀ m, ¬ (f.source = .irq m ∧ f.source.behindSave.masking = true) := by
    rintro m ⟨hsource, hm⟩
    rw [hsource] at hm
    exact absurd hm Bool.false_ne_true
  refine h.replace hs rfl rfl rfl h.ready ?_ (fun m => ?_) (fun hi => ?_) ?_ fun _ => hlabel
  · show s.master.inService = _
    rw [hserving]
    unfold Entered.serving
    rw [hstage]
    cases f.source with
    | irq n => rfl
    | sysCall => rfl
  · rw [show (s.save f rest).master = s.master from rfl, hmask m]
    have hf : ¬ f.masks m := stage_not_masks (by rw [hstage]; rfl) m
    rw [iff_false_intro hf, ← iff_false_intro (hmasks m)]
    rfl
  · have hiflag := hflag (by rw [hstage]; decide)
    exact absurd (hiflag.symm.trans hi) (by decide)
  · have hcount : counted [f] = 0 := by simp [counted, hstage]
    have hcount' : ∀ label, counted [{ f with stage := f.source.behindSave, label := label }] = 1 :=
      fun label => by simp [counted, hbehind]
    rw [hcount, hcount']
    show s.kReenter + 1 - s.kReenter = 1 - 0
    omega

/-- A step of the innermost entry that `save` does not make. -/
theorem Nested.advance (h : Nested base s) (hs : s.stack = f :: rest) (hsave : f.stage ≠ .save)
    {f' : Entered} {s' : Core} (hstack : s'.stack = f' :: rest) (hsource : f'.source = f.source)
    (hlabel : f'.label = f.label) (hsave' : f'.stage ≠ .save) (hbooting : s'.booting = s.booting)
    (hdepth : s'.kReenter = s.kReenter) (hready : s'.master.icw = .ready)
    (hserving : s'.master.inService = f'.serving)
    (hmask : ∀ n : Line, s'.master.mask.getLsbD n.val = true ↔
      base.getLsbD n.val = true ∨ f'.masks n ∨ ∃ g ∈ rest, g.masks n)
    (hflag : s'.iflag = true → f'.stage = .handler) : Nested base s' := by
  refine h.replace hs hstack hbooting hsource hready hserving hmask hflag ?_ fun _ => ?_
  · have hcount : ∀ g : Entered, g.stage ≠ .save → counted [g] = 1 := fun g hg => by
      simp [counted, hg]
    rw [hcount _ hsave, hcount _ hsave', hdepth]
    omega
  · rw [hlabel]
    exact (h.top hs).2.2.2.2 hsave

/-- The instructions of an entry. -/
theorem Nested.insn (h : Nested base s) (hs : s.stack = f :: rest) {s' : Core}
    (hi : s.insn f rest = some s') : Nested base s' := by
  obtain ⟨hserving, hmask, hflag, hbelow, -⟩ := h.top hs
  have hready := h.ready
  have hother : f.stage.masking = false → ∀ m, ¬ f.masks m := stage_not_masks
  obtain ⟨source, stage, label, iflag⟩ := f
  cases stage with
  | save => exact Option.some.inj hi ▸ h.save hs rfl
  | handler => cases source <;> cases hi
  | ret => cases source <;> cases hi
  | sti =>
    cases source
    all_goals
      obtain rfl := Option.some.inj hi
      exact h.advance hs nofun rfl rfl rfl nofun rfl rfl hready hserving hmask fun _ => rfl
  | mask =>
    have hiflag := hflag nofun
    cases source with
    | sysCall => cases hi
    | irq n =>
      obtain rfl := Option.some.inj hi
      rw [I8259.data_ready hready]
      refine h.advance hs nofun rfl rfl rfl nofun rfl rfl hready hserving (fun m => ?_) fun hi' =>
        absurd (hiflag.symm.trans hi') (by decide)
      have hmasks : Entered.masks ⟨.irq n, .eoi, label, iflag⟩ m ↔ m = n := by
        simp [Entered.masks, Stage.masking, eq_comm]
      rw [or_getLsbD, hmask m, hmasks, iff_false_intro (hother rfl m), false_or, or_assoc,
        or_comm (b := m = n)]
  | eoi =>
    have hiflag := hflag nofun
    cases source with
    | sysCall => cases hi
    | irq n =>
      obtain rfl := Option.some.inj hi
      have hcommand : s.master.command 0x20 = { s.master with inService := 0 } := by
        unfold I8259.command
        rw [hserving]
        show { s.master with inService := (1 <<< n.val : Byte) &&& ((1 <<< n.val : Byte) - 1) } = _
        rw [eoi_single]
      rw [hcommand]
      exact h.advance hs nofun rfl rfl rfl nofun rfl rfl hready rfl hmask fun hi' =>
        absurd (hiflag.symm.trans hi') (by decide)
  | unmask =>
    have hiflag := hflag nofun
    cases source with
    | sysCall => cases hi
    | irq n =>
      obtain rfl := Option.some.inj hi
      rw [I8259.data_ready hready]
      refine h.advance hs nofun rfl rfl rfl nofun rfl rfl hready hserving (fun m => ?_) fun hi' =>
        absurd (hiflag.symm.trans hi') (by decide)
      have hmasks : Entered.masks ⟨.irq n, .unmask, label, iflag⟩ m ↔ m = n := by
        simp [Entered.masks, Stage.masking, eq_comm]
      have hret := stage_not_masks (f := ⟨.irq n, .ret, label, iflag⟩) rfl m
      have hopened := h.line_opened hs rfl
      have hrest := h.not_masks hs rfl
      rw [and_not_getLsbD, hmask m, hmasks, iff_false_intro hret, false_or]
      -- the line was open before, and no other entry masks it
      by_cases hmn : m = n
      · subst hmn
        simp only [ne_eq, not_true, and_false, hopened, hrest, Bool.false_eq_true, or_false]
      · simp only [hmn, false_or, ne_eq, not_false_iff, and_true]

/-- The gate, from C code. `inService` is what the new entry has in service. -/
theorem Nested.enter (h : Nested base s) (hC : s.RunsC) {source : Source} {inService : Byte}
    (hserving : inService = Entered.serving ⟨source, .save, .restart, s.iflag⟩)
    (hnew : ∀ n, source = .irq n → n ∉ s.lines ∧ base.getLsbD n.val = false) :
    Nested base { s.enter source with master := { s.master with inService := inService } } := by
  have hhandlers := h.handlers hC
  have hmasks : ∀ n, ¬ Entered.masks ⟨source, .save, .restart, s.iflag⟩ n := stage_not_masks rfl
  have hlines : (s.enter source).lines =
      (Entered.line ⟨source, .save, .restart, s.iflag⟩).toList ++ s.lines := by
    unfold Core.lines Core.enter
    rw [List.filterMap_cons]
    cases Entered.line ⟨source, .save, .restart, s.iflag⟩ with
    | none => rfl
    | some n => rfl
  have hline : ∀ n ∈ Entered.line ⟨source, .save, .restart, s.iflag⟩, source = .irq n := by
    intro n hn
    cases source with
    | irq m => exact congrArg Source.irq (Option.some.inj hn)
    | sysCall => cases hn
  refine ⟨h.ready, hserving, fun n => ?_, ?_, ?_, nofun, hhandlers, ?_, ?_⟩
  · show s.master.mask.getLsbD n.val = true ↔ _ ∨ ∃ f ∈ _ :: s.stack, f.masks n
    rw [h.mask n]
    simp only [List.mem_cons, exists_eq_or_imp, hmasks n, false_or]
  · show (s.enter source).lines.Nodup
    rw [hlines]
    cases hl : Entered.line ⟨source, .save, .restart, s.iflag⟩ with
    | none => exact h.nodup
    | some n => exact List.nodup_cons.mpr ⟨(hnew n (hline n hl)).1, h.nodup⟩
  · show ∀ n ∈ (s.enter source).lines, _
    rw [hlines]
    intro n hn
    rcases List.mem_append.mp hn with hn | hn
    · exact (hnew n (hline n (Option.mem_toList.mp hn))).2
    · exact h.opened n hn
  · have hd := h.depth
    rw [counted_handlers hhandlers] at hd
    show s.kReenter + _ = counted (_ :: s.stack)
    rw [counted_cons _ hhandlers, if_pos rfl, Int.add_zero]
    exact hd
  · exact ⟨fun hne => absurd rfl hne, h.labelled⟩

/-- A line that is requested has no entry yet. -/
theorem Nested.interrupt (h : Nested base s) {n : Line} (hflag : s.iflag = true)
    (hn : s.Requests n) :
    Nested base { s.enter (.irq n) with
      master := { s.master with inService := s.master.inService ||| 1 <<< n.val } } := by
  have hC := h.flag hflag
  have hhandlers := h.handlers hC
  have hclosed : ¬ (base.getLsbD n.val = true ∨ ∃ f ∈ s.stack, f.masks n) := by
    rw [← h.mask n, hn.1]
    exact Bool.false_ne_true
  rw [not_or] at hclosed
  apply h.enter hC
  · rw [h.idle hC]
    exact BitVec.zero_or
  · rintro m hm
    obtain rfl := Source.irq.inj hm
    refine ⟨fun hmem => hclosed.2 ?_, Bool.eq_false_iff.mpr hclosed.1⟩
    obtain ⟨f, hf, hline⟩ := List.mem_filterMap.mp hmem
    refine ⟨f, hf, ?_, by rw [hhandlers f hf]; rfl⟩
    unfold Entered.line at hline
    cases hsource : f.source with
    | irq m =>
      rw [hsource] at hline
      exact congrArg Source.irq (Option.some.inj hline)
    | sysCall =>
      rw [hsource] at hline
      cases hline

theorem Nested.sysCall (h : Nested base s) (hC : s.RunsC) : Nested base (s.enter .sysCall) := by
  exact @Nested.enter base s h hC .sysCall s.master.inService (h.idle hC) nofun

theorem Nested.leave (h : Nested base s) (hs : s.stack = f :: rest) (hstage : f.stage = .handler) :
    Nested base { s with iflag := false, stack := f.leave :: rest } := by
  obtain ⟨hserving, hmask, -, -, -⟩ := h.top hs
  obtain ⟨source, stage, label, iflag⟩ := f
  subst hstage
  cases source with
  | irq n => exact h.advance hs nofun rfl rfl rfl nofun rfl rfl h.ready hserving hmask nofun
  | sysCall =>
    refine h.advance hs nofun rfl rfl rfl nofun rfl rfl h.ready hserving (fun n => ?_) nofun
    rw [hmask n]
    simp only [Entered.masks, Entered.leave, reduceCtorEq, false_and]

/-- The innermost entry returns to the code that it has interrupted. -/
theorem Nested.pop (h : Nested base s) (hs : s.stack = f :: rest) (hstage : f.stage = .ret)
    (b : Bool) : Nested base { s with iflag := b, kReenter := s.kReenter - 1, stack := rest } := by
  obtain ⟨hserving, hmask, -, hbelow, -⟩ := h.top hs
  have hf : ∀ n, ¬ f.masks n := stage_not_masks (by rw [hstage]; rfl)
  have hsub : (rest.filterMap Entered.line).Sublist s.lines := by
    unfold Core.lines
    rw [hs]
    exact (List.sublist_cons_self f rest).filterMap _
  refine ⟨h.ready, ?_, fun n => ?_, h.nodup.sublist hsub, fun n hn => h.opened n (hsub.subset hn),
    fun _ g hg => ?_, fun g hg => hbelow g (List.mem_of_mem_tail hg), ?_, ?_⟩
  · rw [hserving]
    obtain ⟨source, stage, label, iflag⟩ := f
    subst hstage
    cases rest with
    | nil => cases source <;> rfl
    | cons g rest =>
      show _ = g.serving
      rw [Entered.serving_handler (hbelow g (List.mem_cons_self ..))]
      cases source <;> rfl
  · show s.master.mask.getLsbD n.val = true ↔ _
    rw [hmask n]
    simp only [hf n, false_or]
  · exact hbelow g (List.mem_of_mem_head? hg)
  · have hd := h.depth
    have hsave : f.stage ≠ .save := by
      rw [hstage]
      nofun
    rw [hs, counted_cons f hbelow, if_neg hsave] at hd
    rw [counted_handlers hbelow]
    show s.kReenter - 1 + (if s.booting then 0 else 1) = (rest.length : ℤ)
    omega
  · have hl := h.labelled
    rw [hs] at hl
    exact hl.2

end

/-! ### The runs -/

theorem Nested.step {base : Byte} {s s' : Core} (h : Nested base s) (hstep : CoreStep s s') :
    Nested base s' := by
  cases hstep with
  | flag b hC => exact ⟨h.ready, h.serving, h.mask, h.nodup, h.opened, fun _ => hC, h.below,
      h.depth, h.labelled⟩
  | interrupt n hflag hn => exact h.interrupt hflag hn
  | sysCall hC => exact h.sysCall hC
  | insn hs hi => exact h.insn hs hi
  | leave hs hstage => exact h.leave hs hstage
  | restart hs hstage hlabel b =>
    obtain ⟨rfl, -⟩ := ((h.top hs).2.2.2.2 (by rw [hstage]; nofun)).mp hlabel
    exact h.pop hs hstage b
  | restartReenter hs hstage hlabel => exact h.pop hs hstage _
  | boot hs hbooting b =>
    have hd := h.depth
    rw [hbooting, if_pos rfl, Int.add_zero] at hd
    refine ⟨h.ready, h.serving, h.mask, h.nodup, h.opened, fun _ f hf => ?_, h.below, ?_, ?_⟩
    · have hnone : none = some f := (congrArg List.head? hs).symm.trans hf
      cases hnone
    · show s.kReenter - 1 + 1 = counted s.stack
      omega
    · show Labelled false s.stack
      rw [hs]
      trivial

theorem CoreBooted.nested {s : Core} (h : CoreBooted s) : Nested 0xfc s := by
  obtain ⟨⟨addr, p, hmaster⟩, hflag, hreenter, hbooting, hstack⟩ := h
  rw [booted_pics] at hmaster
  have hlines : s.lines = [] := by
    unfold Core.lines
    rw [hstack]
    rfl
  refine ⟨by rw [hmaster], by rw [hmaster, hstack]; rfl, fun n => ?_, by rw [hlines]; exact .nil,
    fun n hn => ?_, fun hi => ?_, fun f hf => ?_, ?_, ?_⟩
  · rw [hmaster, hstack]
    simp
  · rw [hlines] at hn
    exact absurd hn List.not_mem_nil
  · exact absurd (hflag.symm.trans hi) Bool.false_ne_true
  · rw [hstack] at hf
    exact absurd hf List.not_mem_nil
  · rw [hreenter, hbooting, hstack]
    rfl
  · rw [hstack]
    trivial

theorem reachable_nested {s : Core} (h : Reachable CoreBooted CoreStep s) : Nested 0xfc s :=
  h.invariant (fun _ h0 => h0.nested) fun _ _ hI hstep => hI.step hstep

/-! ### A run

The clock interrupts `kernel_main`, and the keyboard the handler of the clock. -/

def bootCore : Core := ⟨⟨.ready, 0x20, 4, 1, 0xfc, 0⟩, false, 0, true, []⟩

theorem bootCore_booted : CoreBooted bootCore := by
  refine ⟨⟨fun _ => 0, ⟨⟨.ready, 0, 0, 0, 0, 0⟩, ⟨.ready, 0, 0, 0, 0, 0⟩⟩, ?_⟩, rfl, rfl, rfl, rfl⟩
  rw [booted_pics]
  rfl

theorem nested_reached : ∃ s, Reachable CoreBooted CoreStep s ∧ s.lines = [1, 0] := by
  have hrun : Reachable CoreBooted CoreStep bootCore := .init bootCore_booted
  have hrun := hrun.step (.flag true nofun)
  have hrun := hrun.step (.interrupt 0 rfl ⟨by decide, by decide⟩)
  have hrun := hrun.step (.insn rfl rfl)
  have hrun := hrun.step (.insn rfl rfl)
  have hrun := hrun.step (.insn rfl rfl)
  have hrun := hrun.step (.insn rfl rfl)
  have hrun := hrun.step (.interrupt 1 rfl ⟨by decide, by decide⟩)
  exact ⟨_, hrun, rfl⟩

/-- However interrupts, system calls and the handling of the interrupt flag interleave: no
    line has two entries on the stack, so that no handler is interrupted by its own line, and
    only the clock and the keyboard have any, so that at most two handlers are nested. The mask
    is the one of the boot with the lines whose handlers are running. -/
theorem nesting_lines {s : Core} (h : Reachable CoreBooted CoreStep s) :
    s.lines.Nodup ∧ (∀ n ∈ s.lines, n = 0 ∨ n = 1) ∧ s.lines.length ≤ 2 ∧
      (∀ n : Line, s.master.mask.getLsbD n.val = true ↔
        (n ≠ 0 ∧ n ≠ 1) ∨ ∃ f ∈ s.stack, f.masks n) ∧
      (s.stack = [] → s.master.mask = 0xfc) := by
  have hn := reachable_nested h
  have hbase : ∀ n : Line, (0xfc : Byte).getLsbD n.val = true ↔ n ≠ 0 ∧ n ≠ 1 := by decide
  have hlines : ∀ n ∈ s.lines, n = 0 ∨ n = 1 := by
    intro n hmem
    have hopened := hn.opened n hmem
    by_contra hc
    rw [not_or] at hc
    rw [(hbase n).mpr hc] at hopened
    cases hopened
  refine ⟨hn.nodup, hlines, ?_, fun n => ?_, fun hs => ?_⟩
  · have hsub : s.lines ⊆ [0, 1] := fun n hmem => by
      have := hlines n hmem
      simpa using this
    exact (hn.nodup.subperm hsub).length_le
  · rw [hn.mask n, hbase n]
  · apply BitVec.eq_of_getLsbD_eq
    intro i hi
    have hmask := hn.mask ⟨i, hi⟩
    rw [hs] at hmask
    simp only [List.not_mem_nil, false_and, exists_false, or_false] at hmask
    exact Bool.eq_iff_iff.mpr hmask

theorem nesting_lines_keyboard : ∃ s : Core, s.lines = [1, 0] ∧ s.lines.length ≤ 2 := by
  obtain ⟨s, hrun, hlines⟩ := nested_reached
  exact ⟨s, hlines, (nesting_lines hrun).2.2.1⟩

/-- `k_reenter` counts the entries behind `save`. An entry that goes to `restart`, and so
    leaves the kernel stack, is the only one there; every other entry is interrupted in C
    code, where nothing is in service. -/
theorem nesting_reenter {s : Core} (h : Reachable CoreBooted CoreStep s) :
    s.kReenter + (if s.booting then 0 else 1) = (s.stack.countP fun f => f.stage ≠ .save : ℕ) ∧
      (∀ f rest, s.stack = f :: rest →
        (∀ g ∈ rest, g.stage = .handler) ∧
        (f.stage = .ret → (f.label = .restart ↔ rest = [] ∧ s.booting = false))) ∧
      (s.RunsC → s.master.inService = 0) := by
  have hn := reachable_nested h
  refine ⟨hn.depth, fun f rest hs => ?_, fun hC => hn.idle hC⟩
  obtain ⟨-, -, -, hbelow, hlabel⟩ := hn.top hs
  exact ⟨hbelow, fun hret => hlabel (by rw [hret]; nofun)⟩

theorem nesting_reenter_keyboard : ∃ s : Core, s.lines = [1, 0] ∧
    s.kReenter + (if s.booting then 0 else 1) = (s.stack.countP fun f => f.stage ≠ .save : ℕ) := by
  obtain ⟨s, hrun, hlines⟩ := nested_reached
  exact ⟨s, hlines, (nesting_reenter hrun).1⟩

end Nesting

end SimpleOs
