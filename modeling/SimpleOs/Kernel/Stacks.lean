import SimpleOs.Kernel.Init

/-!
# The stacks of the native processes

Model of `task_stack` (process.c:19) and of what `init_proc` (process.c:386-523) does with
`task_stack_top`, for any `NR_TASKS`, `NR_NATIVE_PROCS` and `NR_PROCS`. The top is advanced
by `TASK_STACK` before the loop and once more in each round before it is used, while
`STACK_SIZE_TOTAL` counts one stack for each process: the stacks begin one too late.

* `initStacks_getElem?`: the stack of each process.
* `initStacks_initProc`: they are the ones of `initProc`.
* `stacks_apart`, `stack_inside_iff`: where they lie in an array of `n` stacks.
* `stacks_never_inside`: there is no choice of the numbers with which all of them are inside.
-/

namespace SimpleOs

open ByteMem

/-- `STACK_SIZE_TOTAL` (process.h:20), a product of `int`s that comes round to 0 at `2 ^ 17`
    processes. -/
def stackSizeTotal (nrTasks nrNative : ℕ) : BitVec 32 :=
  TASK_STACK * BitVec.ofNat 32 (nrTasks + nrNative)

/-- The loop of `init_proc` from slot `i` on, as far as `task_stack_top` is concerned: the
    `esp` that each of the `slots` gets, if any. -/
def initStacksLoop (native : ℕ) : ℕ → ℕ → BitVec 32 → List (Option (BitVec 32))
  | 0, _, _ => []
  | slots + 1, i, taskStackTop =>
    if i ≥ native then none :: initStacksLoop native slots (i + 1) taskStackTop
    else
      let taskStackTop := taskStackTop + TASK_STACK
      some taskStackTop :: initStacksLoop native slots (i + 1) taskStackTop

/-- `init_proc` for the table of `NR_TASKS + NR_PROCS` slots. -/
def initStacks (nrTasks nrNative nrProcs : ℕ) (taskStack : BitVec 32) :
    List (Option (BitVec 32)) :=
  initStacksLoop (nrTasks + nrNative) (nrTasks + nrProcs) 0 (taskStack + TASK_STACK)

/-! ## The tops -/

/-- One stack further. -/
theorem stackTop_succ (top : BitVec 32) (k : ℕ) :
    top + TASK_STACK + TASK_STACK * BitVec.ofNat 32 k =
      top + TASK_STACK * BitVec.ofNat 32 (k + 1) := by
  rw [BitVec.ofNat_add k 1, BitVec.mul_add, BitVec.add_assoc, BitVec.add_comm TASK_STACK]
  rfl

theorem initStacksLoop_getElem? (native slots i k : ℕ) (top : BitVec 32) (hk : k < slots) :
    (initStacksLoop native slots i top)[k]? =
      some (if i + k < native then some (top + TASK_STACK * BitVec.ofNat 32 (k + 1))
        else none) := by
  induction slots generalizing i k top with
  | zero => omega
  | succ slots ih =>
    rw [initStacksLoop]
    split_ifs with hnative hlt hlt
    · omega
    · cases k with
      | zero => rfl
      | succ k =>
        rw [List.getElem?_cons_succ, ih _ _ _ (by omega), if_neg (by omega)]
    · cases k with
      | zero => rw [List.getElem?_cons_zero, Nat.zero_add, BitVec.mul_one]
      | succ k =>
        rw [List.getElem?_cons_succ, ih _ _ _ (by omega), if_pos (by omega), stackTop_succ]
    · cases k with
      | zero => omega
      | succ k =>
        rw [List.getElem?_cons_succ, ih _ _ _ (by omega), if_neg (by omega)]

/-- The stack of a native process ends `TASK_STACK * (i + 2)` behind `task_stack`. -/
theorem initStacks_getElem? {nrTasks nrNative nrProcs i : ℕ} (taskStack : BitVec 32)
    (hi : i < nrTasks + nrProcs) :
    (initStacks nrTasks nrNative nrProcs taskStack)[i]? =
      some (if i < nrTasks + nrNative then
        some (taskStack + TASK_STACK * BitVec.ofNat 32 (i + 2)) else none) := by
  unfold initStacks
  rw [initStacksLoop_getElem? _ _ _ _ _ hi, Nat.zero_add, stackTop_succ]

/-- With the constants of the kernel these are the stacks of the process table. -/
theorem initStacks_initProc (img : Image) (i : Pid) (hi : i.val < NR_TASKS + NR_NATIVE_PROCS) :
    (initStacks NR_TASKS NR_NATIVE_PROCS NR_PROCS img.taskStack)[i.val]? =
      some (some (initProc img i).regs.esp) := by
  have hesp : (initProc img i).regs.esp = (nativeRegs img i).esp := by
    unfold initProc initSlot
    rw [if_neg (by omega)]
  rw [initStacks_getElem? img.taskStack i.isLt, if_pos hi, hesp]
  rfl

/-! ## Where the stacks are -/

/-- The stack that ends at `esp`. -/
def InStack (esp a : Addr) : Prop := InBlock (esp - TASK_STACK) TASK_STACK.toNat a

/-- Every process gets a stack, no two stacks have an address in common, and all are in
    `task_stack`. -/
structure StacksInside (nrTasks nrNative nrProcs : ℕ) (taskStack : BitVec 32) : Prop where
  given : ∀ i < nrTasks + nrNative,
    ∃ esp, (initStacks nrTasks nrNative nrProcs taskStack)[i]? = some (some esp)
  apart : ∀ (i j : ℕ) (esp esp' : Addr), i ≠ j →
    (initStacks nrTasks nrNative nrProcs taskStack)[i]? = some (some esp) →
    (initStacks nrTasks nrNative nrProcs taskStack)[j]? = some (some esp') →
    ∀ a, InStack esp a → ¬ InStack esp' a
  inside : ∀ (i : ℕ) (esp : Addr),
    (initStacks nrTasks nrNative nrProcs taskStack)[i]? = some (some esp) →
    ∀ a, InStack esp a → InBlock taskStack (stackSizeTotal nrTasks nrNative).toNat a

variable {nrTasks nrNative nrProcs i : ℕ} {taskStack esp a : BitVec 32}

theorem initStacksLoop_length (native slots : ℕ) (top : BitVec 32) :
    (initStacksLoop native slots i top).length = slots := by
  induction slots generalizing i top with
  | zero => rfl
  | succ slots ih =>
    rw [initStacksLoop]
    split_ifs
    · rw [List.length_cons, ih]
    · rw [List.length_cons, ih]

/-- A slot with a stack is one of a native process. -/
theorem initStacks_some
    (h : (initStacks nrTasks nrNative nrProcs taskStack)[i]? = some (some esp)) :
    i < nrTasks + nrProcs ∧ i < nrTasks + nrNative ∧
      esp = taskStack + TASK_STACK * BitVec.ofNat 32 (i + 2) := by
  obtain ⟨hlen, _⟩ := List.getElem?_eq_some_iff.mp h
  have hi : i < nrTasks + nrProcs := by
    unfold initStacks at hlen
    rw [initStacksLoop_length] at hlen
    exact hlen
  rw [initStacks_getElem? taskStack hi] at h
  by_cases hnative : i < nrTasks + nrNative
  · rw [if_pos hnative] at h
    exact ⟨hi, hnative, (Option.some.inj (Option.some.inj h)).symm⟩
  · rw [if_neg hnative] at h
    exact absurd (Option.some.inj h) (by simp)

/-- The stack with the number `i` fills slot `i` of those that begin at `task_stack_top`. -/
theorem inStack_iff (taskStack a : BitVec 32) (hi : i < 2 ^ 17) :
    InStack (taskStack + TASK_STACK * BitVec.ofNat 32 (i + 2)) a ↔
      0x8000 * i ≤ (a - (taskStack + TASK_STACK)).toNat ∧
        (a - (taskStack + TASK_STACK)).toNat < 0x8000 * i + 0x8000 := by
  have hbase : taskStack + TASK_STACK * BitVec.ofNat 32 (i + 2) - TASK_STACK =
      taskStack + TASK_STACK + BitVec.ofNat 32 (0x8000 * i) := by
    rw [← stackTop_succ, ← stackTop_succ, BitVec.ofNat_mul]
    have hconst : TASK_STACK * BitVec.ofNat 32 i = BitVec.ofNat 32 0x8000 * BitVec.ofNat 32 i := rfl
    rw [hconst]
    bv_omega
  unfold InStack
  rw [hbase]
  exact inBlock_slot (by omega)

/-- The stacks of two processes are apart. -/
theorem stacks_apart {j : ℕ} (hi : i < 2 ^ 17) (hj : j < 2 ^ 17) (hne : i ≠ j)
    (h : InStack (taskStack + TASK_STACK * BitVec.ofNat 32 (i + 2)) a) :
    ¬ InStack (taskStack + TASK_STACK * BitVec.ofNat 32 (j + 2)) a := by
  rw [inStack_iff taskStack a hi] at h
  rw [inStack_iff taskStack a hj]
  omega

/-- Of `n` processes all but the last have their stack in `task_stack`; the last one has it
    wholly behind. -/
theorem stack_inside_iff {n : ℕ} (hi : i < n) (hn : n < 2 ^ 17)
    (h : InStack (taskStack + TASK_STACK * BitVec.ofNat 32 (i + 2)) a) :
    InBlock taskStack (0x8000 * n) a ↔ i + 1 < n := by
  rw [inStack_iff taskStack a (by omega)] at h
  unfold InBlock
  have hsub : a - (taskStack + TASK_STACK) = (a - taskStack) - 0x8000 := by bv_omega
  rw [hsub] at h
  have hlt := (a - taskStack).isLt
  rw [BitVec.toNat_sub] at h
  have hconst : (0x8000 : BitVec 32).toNat = 0x8000 := rfl
  rw [hconst] at h
  omega

/-- An array for `n` stacks has room for them in the address space. -/
theorem stackSizeTotal_toNat (h : nrTasks + nrNative < 2 ^ 17) :
    (stackSizeTotal nrTasks nrNative).toNat = 0x8000 * (nrTasks + nrNative) := by
  unfold stackSizeTotal
  rw [BitVec.toNat_mul, BitVec.toNat_ofNat,
    Nat.mod_eq_of_lt (by omega : nrTasks + nrNative < 2 ^ 32)]
  exact Nat.mod_eq_of_lt (by show 0x8000 * _ < _; omega)

/-- A stack contains its lowest address. -/
theorem inStack_bottom (esp : Addr) : InStack esp (esp - TASK_STACK) := by
  unfold InStack InBlock
  rw [BitVec.sub_self]
  decide

theorem StacksInside.stack (h : StacksInside nrTasks nrNative nrProcs taskStack)
    (hi : i < nrTasks + nrNative) :
    (initStacks nrTasks nrNative nrProcs taskStack)[i]? =
      some (some (taskStack + TASK_STACK * BitVec.ofNat 32 (i + 2))) := by
  obtain ⟨esp, hesp⟩ := h.given i hi
  obtain ⟨-, -, rfl⟩ := initStacks_some hesp
  exact hesp

/-- Whatever the numbers are, `init_proc` does not give every process a stack of its own in
    `task_stack`. -/
theorem stacks_never_inside (nrTasks nrNative nrProcs : ℕ) (taskStack : BitVec 32)
    (htasks : 1 ≤ nrTasks) (hnative : 1 ≤ nrNative) :
    ¬ StacksInside nrTasks nrNative nrProcs taskStack := by
  intro h
  rcases Nat.lt_trichotomy (nrTasks + nrNative) (2 ^ 17) with hlt | heq | hgt
  · -- the last process has its stack behind the array
    obtain ⟨last, hlast⟩ : ∃ last, nrTasks + nrNative = last + 1 :=
      ⟨nrTasks + nrNative - 1, by omega⟩
    have hin := h.inside last _ (h.stack (by omega)) _ (inStack_bottom _)
    rw [stackSizeTotal_toNat hlt] at hin
    have hless := (stack_inside_iff (by omega) hlt (inStack_bottom _)).mp hin
    omega
  · -- the size has come round to 0
    have hin := h.inside 0 _ (h.stack (by omega)) _ (inStack_bottom _)
    have hsize : stackSizeTotal nrTasks nrNative = 0 := by
      unfold stackSizeTotal
      rw [heq]
      decide
    rw [hsize] at hin
    exact Nat.not_lt_zero _ hin
  · -- the addresses have come round
    have hwrap : taskStack + TASK_STACK * BitVec.ofNat 32 (2 ^ 17 + 2) =
        taskStack + TASK_STACK * BitVec.ofNat 32 (0 + 2) := by
      congr 1
    have htwice := h.stack hgt
    rw [hwrap] at htwice
    exact absurd (inStack_bottom _)
      (h.apart 0 (2 ^ 17) _ _ (by omega) (h.stack (by omega)) htwice _ (inStack_bottom _))

/-- One task and one native process. -/
theorem stacks_never_inside_two : ¬ StacksInside 1 1 1 0x00110000 :=
  stacks_never_inside 1 1 1 0x00110000 (by decide) (by decide)

/-- With the constants of the kernel the last process has its stack behind `task_stack`. -/
theorem seventh_stack_outside :
    (initStacks 3 4 32 0x00110000)[6]? = some (some 0x00150000) ∧
      ¬ InBlock 0x00110000 (stackSizeTotal 3 4).toNat (0x00150000 - TASK_STACK) ∧
      ¬ StacksInside 3 4 32 0x00110000 := by
  have hlast : (initStacks 3 4 32 0x00110000)[6]? = some (some 0x00150000) := by decide
  have hout : ¬ InBlock 0x00110000 (stackSizeTotal 3 4).toNat (0x00150000 - TASK_STACK) := by decide
  exact ⟨hlast, hout, fun h => hout (h.inside 6 _ hlast _ (inStack_bottom _))⟩

end SimpleOs
