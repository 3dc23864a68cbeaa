import SimpleOs.Mm.Slots

/-!
# The identity of a slot

`init_proc` gives every process the number of its slot in `pid` and the selector
of its own LDT in `ldt_sel`; `init_tss` (start.c:414-427) makes the descriptors
that the selectors stand for. `do_fork` copies the record of the parent over the
slot of the child and saves `ldt_sel` only (mm/mm.c:143-145), so a child has the
`pid` of its parent.

* `mmRun_identity_iff`: which slots in use have their own `pid` and LDT.
* `child_has_pid_of_parent`: the first child of INIT.
-/

namespace SimpleOs

open ByteMem Transition

/-! ## The descriptors of the LDTs -/

abbrev INDEX_TSS : ℕ := 4
abbrev INDEX_LDT_FIRST : ℕ := 5
abbrev SELECTOR_KERNEL_DS : BitVec 16 := 16
abbrev DA_386TSS : BitVec 16 := 0x89
abbrev DA_LDT : BitVec 16 := 0x82

/-- `gdt`. -/
abbrev Gdt := ℕ → Descriptor

/-- The addresses of `proc_table` and `tss`. -/
structure TssImage where
  procTable : Addr
  tss : Addr

/-- `(u32)proc_table[i].ldt`: a `Process` has 168 bytes, and `ldt` comes behind the
    72 bytes of `regs` and the two of `ldt_sel`. -/
def ldtAddr (img : TssImage) (i : Pid) : Addr := img.procTable + BitVec.ofNat 32 (168 * i.val + 74)

/-- `seg2base` (include/protect.h:80-86), the expression of `ldt_seg_linear`. -/
def seg2base (gdt : Gdt) (seg : BitVec 16) : BitVec 32 := ldtSegLinear (gdt (seg >>> 3).toNat)

/-- `linear2phy` (include/protect.h:88-91). -/
def linear2phy (base offset : BitVec 32) : BitVec 32 := base + offset

/-- One round of the loop of `init_tss` (start.c:421-424). -/
def initLdt (img : TssImage) (gdt : Gdt) (i : Pid) : Gdt :=
  Function.update gdt (INDEX_LDT_FIRST + i.val)
    (initDescriptor (linear2phy (seg2base gdt SELECTOR_KERNEL_DS) (ldtAddr img i)) (2 * 8 - 1)
      DA_LDT)

/-- `init_tss` (start.c:414-427), as far as it writes the GDT. -/
def initTss (img : TssImage) (gdt : Gdt) : Gdt :=
  (List.finRange 35).foldl (initLdt img)
    (Function.update gdt INDEX_TSS
      (initDescriptor (linear2phy (seg2base gdt SELECTOR_KERNEL_DS) img.tss) (27 * 4 - 1)
        DA_386TSS))

/-- The descriptor of the LDT of the slot `i`, on top of the GDT of the loader. -/
def ldtDescriptor (img : TssImage) (gdt : Gdt) (i : Pid) : Descriptor :=
  initDescriptor (linear2phy (seg2base gdt SELECTOR_KERNEL_DS) (ldtAddr img i)) (2 * 8 - 1) DA_LDT

section

variable {img : TssImage} {gdt : Gdt}

/-- A round writes behind the descriptor that it reads. -/
theorem seg2base_initLdt (j : Pid) (gdt : Gdt) :
    seg2base (initLdt img gdt j) SELECTOR_KERNEL_DS = seg2base gdt SELECTOR_KERNEL_DS := by
  have hne : (SELECTOR_KERNEL_DS >>> 3).toNat ≠ INDEX_LDT_FIRST + j.val := by
    change 2 ≠ 5 + j.val
    omega
  unfold seg2base
  rw [initLdt, Function.update_of_ne hne]

/-- Every round writes its own entry only. -/
theorem initLdts_other {l : List Pid} {n : ℕ} (hn : ∀ m ∈ l, n ≠ INDEX_LDT_FIRST + m.val)
    (gdt : Gdt) : l.foldl (initLdt img) gdt n = gdt n := by
  induction l generalizing gdt with
  | nil => rfl
  | cons m l ih =>
    obtain ⟨hm, hl⟩ := List.forall_mem_cons.mp hn
    rw [List.foldl_cons, ih hl]
    exact Function.update_of_ne hm _ _

theorem initLdts_apply {l : List Pid} (hl : l.Nodup) {i : Pid} (hi : i ∈ l) (gdt : Gdt) :
    l.foldl (initLdt img) gdt (INDEX_LDT_FIRST + i.val) = ldtDescriptor img gdt i := by
  induction l generalizing gdt with
  | nil => exact absurd hi List.not_mem_nil
  | cons j l ih =>
    obtain ⟨hj, hl⟩ := List.nodup_cons.mp hl
    rw [List.foldl_cons]
    rcases List.mem_cons.mp hi with rfl | hi
    · have hlater : ∀ m ∈ l, INDEX_LDT_FIRST + i.val ≠ INDEX_LDT_FIRST + m.val := by
        intro m hm hc
        have heq : i = m := Fin.ext (by omega)
        exact hj (heq ▸ hm)
      rw [initLdts_other hlater]
      exact Function.update_self ..
    · rw [ih hl hi]
      unfold ldtDescriptor
      rw [seg2base_initLdt]

/-- `init_tss` makes the descriptor of every LDT. -/
theorem initTss_apply (img : TssImage) (gdt : Gdt) (i : Pid) :
    initTss img gdt (INDEX_LDT_FIRST + i.val) = ldtDescriptor img gdt i := by
  have hbase : seg2base (Function.update gdt INDEX_TSS
      (initDescriptor (linear2phy (seg2base gdt SELECTOR_KERNEL_DS) img.tss) (27 * 4 - 1)
        DA_386TSS)) SELECTOR_KERNEL_DS = seg2base gdt SELECTOR_KERNEL_DS := by
    unfold seg2base
    rw [Function.update_of_ne (by decide)]
  unfold initTss
  rw [initLdts_apply (List.nodup_finRange 35) (List.mem_finRange i)]
  unfold ldtDescriptor
  rw [hbase]

end

/-- The base of a descriptor. -/
theorem ldtSegLinear_initDescriptor (base limit : BitVec 32) (attr : BitVec 16) :
    ldtSegLinear (initDescriptor base limit attr) = base := by
  have hff : ∀ i < 8, (0xff : BitVec 32).getLsbD i = true := by decide
  have hffff : ∀ i < 16, (0xffff : BitVec 32).getLsbD i = true := by decide
  apply BitVec.eq_of_getLsbD_eq
  intro i hi
  unfold ldtSegLinear initDescriptor
  simp only [BitVec.getLsbD_or, BitVec.getLsbD_shiftLeft, BitVec.getLsbD_setWidth,
    BitVec.getLsbD_and, BitVec.getLsbD_ushiftRight, hi, decide_true, Bool.true_and]
  rcases Nat.lt_or_ge i 16 with h16 | h16
  · rw [hffff i h16]
    simp [h16, show i < 24 by omega]
  · rcases Nat.lt_or_ge i 24 with h24 | h24
    · rw [hff (i - 16) (by omega)]
      simp [h24, show ¬ i < 16 by omega, show 16 + (i - 16) = i by omega, show i - 16 < 8 by omega,
        show i - 16 < 32 by omega]
    · rw [hff (i - 24) (by omega)]
      simp [show ¬ i < 24 by omega, show ¬ i < 16 by omega, show 24 + (i - 24) = i by omega,
        show i - 24 < 8 by omega, show ¬ i - 16 < 8 by omega, show i - 24 < 32 by omega]

/-! ## What keeps its identity -/

/-- No slot has another `ldt_sel`, `pid` or name. -/
structure SameIds (t t' : ProcTable) : Prop where
  ldtSel : ∀ p, (t' p).ldtSel = (t p).ldtSel
  pid : ∀ p, (t' p).pid = (t p).pid
  name : ∀ p, (t' p).name = (t p).name

theorem SameIds.of_eq {t t' : ProcTable} (h : t' = t) : SameIds t t' :=
  ⟨fun _ => by rw [h], fun _ => by rw [h], fun _ => by rw [h]⟩

theorem SendOutcome.sameIds {k k' : Machine} {s d : Pid} {m : Addr}
    (h : SendOutcome k s d m k') : SameIds k.procTable k'.procTable := by
  cases h with
  | deliver => exact ⟨fun _ => rfl, fun _ => rfl, fun _ => rfl⟩
  | enqueue => exact ⟨fun _ => rfl, fun _ => rfl, fun _ => rfl⟩

theorem ReceiveOutcome.sameIds {k k' : Machine} {w : Pid} {src : ℤ} {m : Addr}
    (h : ReceiveOutcome k w src m k') : SameIds k.procTable k'.procTable := by
  cases h with
  | interrupt => exact ⟨fun _ => rfl, fun _ => rfl, fun _ => rfl⟩
  | take => exact ⟨fun _ => rfl, fun _ => rfl, fun _ => rfl⟩
  | wait => exact ⟨fun _ => rfl, fun _ => rfl, fun _ => rfl⟩

theorem sysSendrec_sameIds {k k' : Machine} {p : Pid} {function srcDest : ℤ} {m : Addr}
    (h : sysSendrec k function srcDest m p = .ok k') : SameIds k.procTable k'.procTable := by
  rcases sysSendrec_outcome h with ⟨d, _, _, _, _, hout⟩ | ⟨_, _, hout⟩
  · exact hout.sameIds
  · exact hout.sameIds

/-- What a step of `task_mm` does to the identities: nothing, unless it fills a free
    slot. -/
theorem MmOutcome.idChange {img : MmImage} {k k' : Machine} {pc pc' : MmPc}
    (h : MmOutcome img k pc k' pc') :
    (SameIds k.procTable k'.procTable ∧ ∀ src child, pc' ≠ .forkSend src child) ∨
    (∃ pid child, pc = .dispatch ∧ pc' = .forkSend (proc2pid pid) child ∧
      mmType img k = FORK ∧ mmSource img k = proc2pid pid ∧
      findFreeSlot k.procTable = some child ∧ Forkable child ∧
      k'.procTable = forkTable k.procTable pid child) := by
  have hsame : SameIds k.procTable k.procTable := .of_eq rfl
  cases h with
  | fork pid child used htype hpid hfree hchild =>
    exact .inr ⟨pid, child, rfl, rfl, htype, hpid, hfree, hchild, rfl⟩
  | receive h => exact .inl ⟨h.sameIds, by simp⟩
  | forkSend _ _ h => exact .inl ⟨h.outcome.sameIds, by simp⟩
  | cleanupSend _ _ _ _ h => exact .inl ⟨h.outcome.sameIds, by simp⟩
  | waitNone _ h => exact .inl ⟨h.outcome.sameIds, by simp⟩
  | reply _ _ h => exact .inl ⟨h.outcome.sameIds, by simp⟩
  | cleanupFree proc ret =>
    refine .inl ⟨⟨fun _ => rfl, fun _ => rfl, fun _ => rfl⟩, ?_⟩
    cases ret with
    | exit => simp [resumeAt]
    | scan => simp [resumeAt]
    | wait => simp [resumeAt]
  | _ => exact .inl ⟨⟨fun _ => rfl, fun _ => rfl, fun _ => rfl⟩, by simp⟩

/-! ## Whole runs -/

/-- Every slot has its own selector, and the `pid` of a process that `init_proc` has
    set up: its own if it is one of these. -/
structure IdTable (t : ProcTable) : Prop where
  ldtSel : ∀ p, (t p).ldtSel = ldtSelector p
  native : ∀ p, ¬ Forkable p → (t p).pid = BitVec.ofNat 32 p.val
  pid_lt : ∀ p, (t p).pid.toNat < NR_TASKS + NR_NATIVE_PROCS

theorem IdTable.same {t t' : ProcTable} (h : IdTable t) (hsame : SameIds t t') : IdTable t' := by
  refine ⟨fun p => ?_, fun p hp => ?_, fun p => ?_⟩
  · rw [hsame.ldtSel, h.ldtSel]
  · rw [hsame.pid, h.native p hp]
  · rw [hsame.pid]
    exact h.pid_lt p

/-- The selector of the child is saved, its `pid` is not. -/
theorem IdTable.fork {t : ProcTable} (h : IdTable t) (pid : Pid) {child : Pid}
    (hchild : Forkable child) : IdTable (forkTable t pid child) := by
  refine ⟨fun p => ?_, fun p hp => ?_, fun p => ?_⟩
  · by_cases hpc : p = child
    · subst hpc
      rw [forkTable_self]
      exact h.ldtSel p
    · rw [forkTable_of_ne _ _ hpc, h.ldtSel]
  · have hne : p ≠ child := fun heq => hp (heq ▸ hchild)
    rw [forkTable_of_ne _ _ hne, h.native p hp]
  · by_cases hpc : p = child
    · subst hpc
      rw [forkTable_self]
      exact h.pid_lt pid
    · rw [forkTable_of_ne _ _ hpc]
      exact h.pid_lt p

theorem IdTable.step {img : MmImage} {C : MmState → Prop} {s s' : MmState}
    (h : IdTable s.k.procTable) (hs : MmSysStep img C s s') : IdTable s'.k.procTable := by
  cases hs with
  | user p _ _ _ _ _ hcall => exact h.same (sysSendrec_sameIds hcall)
  | task eax _ _ hstep =>
    rcases (mmStep_outcome hstep).idChange with ⟨hsame, _⟩ |
      ⟨pid, child, _, _, _, _, _, hchild, htable⟩
    · exact h.same hsame
    · dsimp only
      rw [htable]
      exact h.fork pid hchild
  | other htable _ => exact h.same (.of_eq htable)

theorem MmBooted.idTable {img : Image} {s : MmState} (h : MmBooted img s) :
    IdTable s.k.procTable := by
  have htable : s.k.procTable = initProc img := h.1
  rw [htable]
  refine ⟨fun p => ?_, fun p hp => ?_, fun p => ?_⟩
  · unfold initProc initSlot
    by_cases hp : p.val ≥ NR_TASKS + NR_NATIVE_PROCS
    · rw [if_pos hp]
    · rw [if_neg hp]
  · have hlt : ¬ p.val ≥ NR_TASKS + NR_NATIVE_PROCS := hp
    rw [initProc, initSlot, if_neg hlt]
  · unfold initProc initSlot
    by_cases hp : p.val ≥ NR_TASKS + NR_NATIVE_PROCS
    · rw [if_pos hp]
      exact Nat.succ_pos 6
    · rw [if_neg hp]
      dsimp only
      rw [BitVec.toNat_ofNat]
      omega

/-- The slot has the selector of its own LDT, and the descriptor there says where this
    LDT is. -/
structure OwnLdt (img : TssImage) (gdt : Gdt) (t : ProcTable) (p : Pid) : Prop where
  ldtSel : (t p).ldtSel = ldtSelector p
  descriptor : initTss img gdt ((t p).ldtSel >>> 3).toNat = ldtDescriptor img gdt p
  base : ldtSegLinear (ldtDescriptor img gdt p) =
    linear2phy (seg2base gdt SELECTOR_KERNEL_DS) (ldtAddr img p)

theorem ldtSelector_index : ∀ p : Pid, (ldtSelector p >>> 3).toNat = INDEX_LDT_FIRST + p.val := by
  decide

theorem IdTable.ownLdt {t : ProcTable} (h : IdTable t) (img : TssImage) (gdt : Gdt) (p : Pid) :
    OwnLdt img gdt t p := by
  refine ⟨h.ldtSel p, ?_, ldtSegLinear_initDescriptor _ _ _⟩
  rw [h.ldtSel, ldtSelector_index]
  exact initTss_apply img gdt p

/-- In every state of every run every slot has its own LDT, and its own number in `pid`
    if and only if it is one that `init_proc` has set up. -/
theorem mmRun_identity_iff {img : Image} {mimg : MmImage} {C : MmState → Prop} {s : MmState}
    (h : Reachable (MmBooted img) (MmSysStep mimg C) s) (timg : TssImage) (gdt : Gdt) (p : Pid) :
    OwnLdt timg gdt s.k.procTable p ∧
      ((s.k.procTable p).pid = BitVec.ofNat 32 p.val ↔ ¬ Forkable p) := by
  have hid : IdTable s.k.procTable :=
    h.invariant (I := fun s => IdTable s.k.procTable) (fun _ h0 => h0.idTable)
      fun _ _ hI hs => hI.step hs
  refine ⟨hid.ownLdt timg gdt p, fun hpid hp => ?_, hid.native p⟩
  have hlt := hid.pid_lt p
  have hslot := p.isLt
  unfold Forkable at hp
  rw [hpid, BitVec.toNat_ofNat] at hlt
  omega

theorem mmRun_identity_iff_init :
    OwnLdt ⟨0x20000, 0x30000⟩ (fun _ => initDescriptor 0 0xfffff DA_LDT) (initProc sampleImage) INIT ∧
      ((initProc sampleImage INIT).pid = 3 ↔ ¬ Forkable INIT) := by
  have hreach : Reachable (MmBooted sampleImage) (MmSysStep sampleMmImage fun _ => True)
      ⟨requestMachine 3, .receive⟩ := .init (requestMachine_booted 3)
  exact mmRun_identity_iff hreach _ _ INIT

/-- INIT forks; the child in the slot 7 has the `pid` 3. -/
theorem child_has_pid_of_parent :
    ∃ s, Reachable (MmBooted sampleImage) (MmSysStep sampleMmImage fun _ => True) s ∧
      Occupied (s.k.procTable 7) ∧ (s.k.procTable 7).pid ≠ BitVec.ofNat 32 (7 : Pid).val :=
  MmState.exists_reachable sampleMmImage (requestMachine_booted 3)
    [.task, .user INIT SEND 2 0x1000, .task]
    (fun s => Occupied (s.k.procTable 7) ∧
      (s.k.procTable 7).pid ≠ BitVec.ofNat 32 (7 : Pid).val) (by decide)

end SimpleOs
