import SimpleOs.Kernel.Switch

/-!
# Interrupts in the kernel

From ring 0 the frame goes onto the kernel stack, and `restart_reenter` takes it from there.

* `context_nested`: code in the kernel goes on with its registers and its stack.
-/

namespace SimpleOs

namespace Context

open ByteMem WordStack

/-- Code in the kernel has been interrupted at `s`; the words of `l` are on the stack, and behind
    them a frame without a stack. -/
structure InNested (s : State) (l : List (BitVec 32)) (t : State) : Prop where
  esp : t.regs.esp = s.regs.esp - BitVec.ofNat 32 (4 * (l.length + 16))
  stack : ∃ kernelEsp retaddr, WordsAt t.mem t.regs.esp
    (l ++ (s.regs.words kernelEsp retaddr).take 16)
  esi : t.regs.esi = s.regs.esp - 64
  ss : t.regs.ss = s.regs.ss
  kReenter : t.kReenter = s.kReenter + 1
  rest : ∀ a, ¬ InBlock (s.regs.esp - 88) 88 a → t.mem a = s.mem a

section

variable {img : Image} {s t : State} {l : List (BitVec 32)}

theorem InNested.push (h : InNested s l t) (w : BitVec 32) (hlen : l.length < 6) :
    InNested s (w :: l) (t.push w) := by
  obtain ⟨kernelEsp, retaddr, hstack⟩ := h.stack
  have hesp : t.regs.esp - 4 = s.regs.esp - BitVec.ofNat 32 (4 * (l.length + 1 + 16)) := by
    rw [h.esp]
    bv_omega
  refine ⟨hesp, ⟨kernelEsp, retaddr, readWord_writeWord _ _ _, ?_⟩, h.esi, h.ss, h.kReenter,
    fun a ha => ?_⟩
  · rw [show (t.push w).regs.esp + 4 = t.regs.esp by unfold State.push; bv_omega]
    have hlen' : (l ++ (s.regs.words kernelEsp retaddr).take 16).length = l.length + 16 := by
      simp [Regs.words]
    refine hstack.congr (fun a ha => ?_) (by omega)
    apply writeWord_out
    rw [hlen'] at ha
    unfold InBlock at ha ⊢
    bv_omega
  · rw [← h.rest a ha]
    apply writeWord_out
    rw [hesp]
    unfold InBlock at ha ⊢
    bv_omega

theorem InNested.setRegs (h : InNested s l t) (r : Regs) (hesp : r.esp = t.regs.esp)
    (hesi : r.esi = t.regs.esi) (hss : r.ss = t.regs.ss) :
    InNested s l { t with regs := r } where
  esp := hesp.trans h.esp
  stack := by
    obtain ⟨kernelEsp, retaddr, hstack⟩ := h.stack
    refine ⟨kernelEsp, retaddr, ?_⟩
    show WordsAt t.mem r.esp _
    rw [hesp]
    exact hstack
  esi := hesi.trans h.esi
  ss := hss.trans h.ss
  kReenter := h.kReenter
  rest := h.rest

/-- `save` on its way when the kernel has been interrupted. -/
def State.kept (e : State) : State :=
  { e with
    regs := { e.regs with ds := e.regs.ss, es := e.regs.ss, fs := e.regs.ss, esi := e.regs.esp }
    kReenter := e.kReenter + 1 }

theorem save_inner {e : State} (he : pushSegs (pushal s) = e) (h : e.kReenter + 1 ≠ 0) :
    save img s =
      let t := e.kept.push img.restartReenter
      { t with regs := { t.regs with eip := word t.mem e.regs.esp 12 } } := by
  unfold save
  rw [he]
  simp only [if_neg h]
  rfl

theorem entered_inNested (handler retaddr : Addr) (h : s.regs.Ring0) :
    InNested s [] (entered handler retaddr s).kept ∧
      (entered handler retaddr s).kReenter = s.kReenter := by
  obtain ⟨kernelEsp, he⟩ := entered_ring0 handler retaddr h
  obtain ⟨hregs, hwords, hout⟩ := State.pushes_spec { s with regs := s.regs.gated handler }
    ((s.regs.words kernelEsp retaddr).take 16) (by simp [Regs.words])
  rw [← he] at hregs hwords hout
  have hkr : (entered handler retaddr s).kReenter = s.kReenter := by rw [he]; rfl
  have hesp : (entered handler retaddr s).regs.esp = s.regs.esp - 64 := by rw [hregs]; rfl
  have hss : (entered handler retaddr s).regs.ss = s.regs.ss := by rw [hregs]; rfl
  change WordsAt _ (s.regs.esp - 64) _ at hwords
  change ∀ b, ¬ InBlock (s.regs.esp - 64) 64 b → _ at hout
  generalize entered handler retaddr s = e at *
  refine ⟨⟨hesp, ⟨kernelEsp, retaddr, ?_⟩, hesp, hss, ?_, fun a ha => hout a ?_⟩, hkr⟩
  · show WordsAt e.mem e.regs.esp _
    rw [hesp]
    exact hwords
  · show e.kReenter + 1 = s.kReenter + 1
    rw [hkr]
  · unfold InBlock at ha ⊢
    bv_omega

theorem save_inNested (handler retaddr : Addr) (h : s.regs.Ring0) (hk : s.kReenter + 1 ≠ 0) :
    InNested s [img.restartReenter] (save img ((gate handler s).push retaddr)) := by
  obtain ⟨he, hkr⟩ := entered_inNested handler retaddr h
  have heq : pushSegs (pushal ((gate handler s).push retaddr)) = entered handler retaddr s := rfl
  rw [save_inner heq (by rw [hkr]; exact hk)]
  exact (he.push img.restartReenter (by simp)).setRegs _ rfl rfl rfl

theorem hwintIn_inNested (n : Fin 8) (h : s.regs.Ring0) (hk : s.kReenter + 1 ≠ 0) :
    InNested s [BitVec.ofNat 32 n.val, img.restartReenter] (hwintIn img n s) := by
  have ht : InNested s [img.restartReenter] (save img _) :=
    save_inNested (img.hwint n) (img.behindHwint n) h hk
  unfold hwintIn
  generalize save img ((gate (img.hwint n) s).push (img.behindHwint n)) = t at ht ⊢
  have hal := ht.setRegs { t.regs with eax := t.regs.eax &&& 0xffffff00 ||| 0x20 } rfl rfl rfl
  exact (hal.setRegs (sti { t with
    regs := { t.regs with eax := t.regs.eax &&& 0xffffff00 ||| 0x20 } }).regs rfl rfl rfl).push _
    (by simp)

theorem sysCallIn_inNested (h : s.regs.Ring0) (hk : s.kReenter + 1 ≠ 0) :
    ∃ a b c d, InNested s [a, b, c, d, s.regs.esp - 64, img.restartReenter] (sysCallIn img s) := by
  have ht : InNested s [img.restartReenter] (save img _) :=
    save_inNested img.sysCall img.behindSysCall h hk
  unfold sysCallIn
  generalize save img ((gate img.sysCall s).push img.behindSysCall) = t at ht ⊢
  have hsti : InNested s [img.restartReenter] (sti t) := ht.setRegs _ rfl rfl rfl
  generalize sti t = t' at hsti ⊢
  have h1 := hsti.push t'.regs.esi (by simp)
  rw [hsti.esi] at h1
  have h2 := h1.push t'.readyProcess (by simp)
  have h3 := h2.push t'.regs.edx (by simp)
  have h4 := h3.push t'.regs.ecx (by simp)
  have h5 := h4.push t'.regs.ebx (by simp)
  unfold pushArgs
  rw [hsti.esi]
  exact ⟨_, _, _, _, h5⟩

variable {s₀ : State} {n i : ℕ}

theorem InNested.returned (h : InNested s₀ l s) (ht : Returns img n s t) (hn : n ≤ l.length)
    (hlen : l.length ≤ 6) (hroom : (img.stackTop - s₀.regs.esp).toNat + 88 ≤ 40960) :
    (∀ i w, n ≤ i → l[i]? = some w → t.word i = w) ∧
      ∃ kernelEsp retaddr, ∀ i w, ((s₀.regs.words kernelEsp retaddr).take 16)[i]? = some w →
        t.word (l.length + i) = w := by
  obtain ⟨kernelEsp, retaddr, hstack⟩ := h.stack
  have hin : (img.stackTop - s.regs.esp).toNat =
      (img.stackTop - s₀.regs.esp).toNat + 4 * (l.length + 16) := by
    rw [h.esp]
    bv_omega
  have hkept : ∀ i w, n ≤ i →
      (l ++ (s₀.regs.words kernelEsp retaddr).take 16)[i]? = some w → t.word i = w := by
    intro i w hi hw
    obtain ⟨hlt, -⟩ := List.getElem?_eq_some_iff.mp hw
    rw [List.length_append, show ((s₀.regs.words kernelEsp retaddr).take 16).length = 16 by
      simp [Regs.words]] at hlt
    rw [← hstack.word hw]
    unfold State.word
    rw [ht.esp]
    apply readWord_congr
    intro j hj
    apply ht.stack
    · rw [hin]
      unfold InBlock
      bv_omega
    · unfold InBlock
      bv_omega
  refine ⟨fun i w hi hw => hkept i w hi ?_, kernelEsp, retaddr, fun i w hw => ?_⟩
  · obtain ⟨hlt, -⟩ := List.getElem?_eq_some_iff.mp hw
    rw [List.getElem?_append_left hlt]
    exact hw
  · refine hkept _ w (by omega) ?_
    rw [List.getElem?_append_right (by omega), Nat.add_sub_cancel_left]
    exact hw

/-- A frame without a stack; `iretl` leaves the stack where it is. -/
theorem frameAt_ring0 {mem : Mem} {a : Addr} {r : Regs} {kernelEsp retaddr : BitVec 32}
    (h : ∀ i w, ((r.words kernelEsp retaddr).take 16)[i]? = some w → word mem a i = w) :
    { frameAt mem a with esp := r.esp, ss := r.ss } = r := by
  unfold frameAt
  rw [h 0 _ rfl, h 1 _ rfl, h 2 _ rfl, h 3 _ rfl, h 4 _ rfl, h 5 _ rfl, h 6 _ rfl, h 8 _ rfl,
    h 9 _ rfl, h 10 _ rfl, h 11 _ rfl, h 13 _ rfl, h 14 _ rfl, h 15 _ rfl]
  simp only [setWidth_seg]

theorem retl_reenter (hlabel : s.word 0 = img.restartReenter)
    (h : (frameAt s.mem (s.regs.esp + 4)).Ring0) :
    retl img s =
      { s with
        regs := { frameAt s.mem (s.regs.esp + 4) with esp := s.regs.esp + 4 + 64, ss := s.regs.ss }
        kReenter := s.kReenter - 1 } := by
  unfold retl
  have hne : ¬ s.word 0 = img.restart := by
    rw [hlabel]
    exact fun heq => img.labels heq.symm
  simp only [if_neg hne, if_pos hlabel]
  exact restartReenter_ring0 (s := s.drop 1) h

/-- Back to the code that has been interrupted. -/
theorem retl_frame {u : State} {r : Regs} (kernelEsp retaddr : BitVec 32)
    (hlabel : u.word 0 = img.restartReenter)
    (hframe : ∀ i w, ((r.words kernelEsp retaddr).take 16)[i]? = some w → u.word (1 + i) = w)
    (hesp : u.regs.esp + 68 = r.esp) (hss : u.regs.ss = r.ss) (hring : r.Ring0) :
    retl img u = { u with regs := r, kReenter := u.kReenter - 1 } := by
  have hframe' : ∀ i w, ((r.words kernelEsp retaddr).take 16)[i]? = some w →
      word u.mem (u.regs.esp + 4) i = w := fun i w hi =>
    (word_add u.mem u.regs.esp 1 i).trans (hframe i w hi)
  have hregs := frameAt_ring0 hframe'
  have hcs : (frameAt u.mem (u.regs.esp + 4)).cs = r.cs := by simpa using congrArg Regs.cs hregs
  have hring' : (frameAt u.mem (u.regs.esp + 4)).Ring0 := by
    unfold Regs.Ring0
    rw [hcs]
    exact hring
  have htop : u.regs.esp + 4 + 64 = r.esp := by
    rw [← hesp]
    bv_omega
  rw [retl_reenter hlabel hring', htop, hss, hregs]

/-- Code in the kernel that has been interrupted at `s` goes on at `s'`, with the registers `r`. -/
structure GoesOn (img : Image) (s s' : State) (r : Regs) : Prop where
  regs : s'.regs = r
  kReenter : s'.kReenter = s.kReenter
  stack : ∀ a, InBlock s.regs.esp (img.stackTop - s.regs.esp).toNat a → s'.mem a = s.mem a

/-- C code does not write the stack of the code that has been interrupted. -/
theorem InNested.stack_kept (h : InNested s₀ l s) (ht : Returns img n s t) (hn : n ≤ l.length)
    (hlen : l.length ≤ 6) (hroom : (img.stackTop - s₀.regs.esp).toNat + 88 ≤ 40960) {a : Addr}
    (ha : InBlock s₀.regs.esp (img.stackTop - s₀.regs.esp).toNat a) : t.mem a = s₀.mem a := by
  have hesp := h.esp
  rw [← h.rest a (by unfold InBlock at ha ⊢; bv_omega)]
  apply ht.stack
  · rw [hesp]
    unfold InBlock at ha ⊢
    bv_omega
  · rw [hesp]
    unfold InBlock at ha ⊢
    bv_omega

theorem hwint_goesOn {n : Fin 8} (hring : s.regs.Ring0) (hk : s.kReenter + 1 ≠ 0)
    (hroom : (img.stackTop - s.regs.esp).toNat + 88 ≤ 40960)
    (ht : Returns img 1 (hwintIn img n s) t) : GoesOn img s (hwintOut img t) s.regs := by
  have hin : InNested s _ (hwintIn img n s) := hwintIn_inNested n hring hk
  obtain ⟨hlabel, kernelEsp, retaddr, hframe⟩ := hin.returned ht (by simp) (by simp) hroom
  have hesp : t.regs.esp = s.regs.esp - 72 := ht.esp.trans hin.esp
  have hdrop : ∀ i, (t.drop 1).word i = t.word (1 + i) := t.word_drop 1
  have hout : hwintOut img t = { t with regs := s.regs, kReenter := t.kReenter - 1 } := by
    refine retl_frame (u := cli { t.drop 1 with regs := { (t.drop 1).regs with ecx := t.word 0 } })
      kernelEsp retaddr ((hdrop 0).trans (hlabel 1 _ (by omega) rfl)) (fun i w hi => ?_) ?_
      (ht.ss.trans hin.ss) hring
    · refine (hdrop (1 + i)).trans ?_
      rw [← Nat.add_assoc]
      exact hframe i w hi
    · show t.regs.esp + BitVec.ofNat 32 (4 * 1) + 68 = s.regs.esp
      rw [hesp]
      bv_omega
  rw [hout]
  refine ⟨rfl, ?_, fun a ha => hin.stack_kept ht (by simp) (by simp) hroom ha⟩
  show t.kReenter - 1 = s.kReenter
  rw [ht.kReenter, hin.kReenter]
  bv_omega

theorem sysCall_goesOn (hring : s.regs.Ring0) (hk : s.kReenter + 1 ≠ 0)
    (hroom : (img.stackTop - s.regs.esp).toNat + 88 ≤ 40960)
    (ht : Returns img 4 (sysCallIn img s) t) :
    GoesOn img s (sysCallOut img t) { s.regs with eax := t.regs.eax } := by
  obtain ⟨w₀, w₁, w₂, w₃, hin⟩ : ∃ a b c d, InNested s _ (sysCallIn img s) :=
    sysCallIn_inNested hring hk
  obtain ⟨hword, kernelEsp, retaddr, hframe⟩ := hin.returned ht (by simp) (by simp) hroom
  have hesp : t.regs.esp = s.regs.esp - 88 := ht.esp.trans hin.esp
  -- the frame is at `esp - 64`, behind the label
  obtain ⟨a, ha⟩ : ∃ a, s.regs.esp - 64 = a := ⟨_, rfl⟩
  have hesi : t.word 4 = a := (hword 4 _ (by omega) rfl).trans ha
  have hplace : a + 44 = t.regs.esp + BitVec.ofNat 32 (4 * 17) := by
    rw [← ha, hesp]
    bv_omega
  have hsame : ∀ i, i < 2 ^ 30 → i ≠ 17 →
      word (writeWord t.mem (a + 44) t.regs.eax) t.regs.esp i = t.word i := by
    intro i hi hne
    rw [hplace]
    exact word_writeWord t.mem t.regs.esp t.regs.eax hi (by omega) hne
  have hresult : word (writeWord t.mem (a + 44) t.regs.eax) t.regs.esp 17 = t.regs.eax := by
    rw [hplace]
    exact readWord_writeWord _ _ _
  have hret : retl img (t.answered a) =
      { t.answered a with
        regs := { s.regs with eax := t.regs.eax }, kReenter := (t.answered a).kReenter - 1 } := by
    refine retl_frame (r := { s.regs with eax := t.regs.eax }) kernelEsp retaddr ?_
      (fun i w hi => ?_) ?_ (ht.ss.trans hin.ss) hring
    · refine (t.answered_word _ 0).trans ((hsame 5 (by omega) (by omega)).trans ?_)
      exact hword 5 _ (by omega) rfl
    · refine (t.answered_word _ (1 + i)).trans ?_
      rw [← Nat.add_assoc]
      by_cases hi' : i = 11
      · subst hi'
        exact hresult.trans (Option.some.inj hi)
      · obtain ⟨hlt, -⟩ := List.getElem?_eq_some_iff.mp hi
        have hlt' : i < 16 := by simpa [Regs.words] using hlt
        refine (hsame (5 + 1 + i) (by omega) (by omega)).trans (hframe i w ?_)
        rw [← hi, List.getElem?_take_of_lt hlt', List.getElem?_take_of_lt hlt']
        exact (List.getElem?_set_ne (l := s.regs.words kernelEsp retaddr) (a := t.regs.eax)
          (Ne.symm hi')).symm
    · show (t.answered a).regs.esp + 68 = s.regs.esp
      rw [t.answered_esp, hesp]
      bv_omega
  rw [sysCallOut_retl img hesi, hret]
  refine ⟨rfl, ?_, fun x hx => ?_⟩
  · show t.kReenter - 1 = s.kReenter
    rw [ht.kReenter, hin.kReenter]
    bv_omega
  · show (t.answered a).mem x = s.mem x
    rw [t.answered_mem, writeWord_out]
    · exact hin.stack_kept ht (by simp) (by simp) hroom hx
    · rw [← ha]
      unfold InBlock at hx ⊢
      bv_omega

end

/-- Code in the kernel goes on behind an interrupt with the registers and the stack that it had,
    and behind a system call with these and the result. -/
theorem context_nested {img : Image} {s t : State} (hring : s.regs.Ring0)
    (hk : s.kReenter + 1 ≠ 0) (hroom : (img.stackTop - s.regs.esp).toNat + 88 ≤ 40960) :
    (∀ n, Returns img 1 (hwintIn img n s) t → GoesOn img s (hwintOut img t) s.regs) ∧
      (Returns img 4 (sysCallIn img s) t →
        GoesOn img s (sysCallOut img t) { s.regs with eax := t.regs.eax }) :=
  ⟨fun _ ht => hwint_goesOn hring hk hroom ht, fun ht => sysCall_goesOn hring hk hroom ht⟩

/-- An interrupt of line 0 in C code, 256 bytes below the top of the stack. -/
theorem context_nested_sample :
    let s : State :=
      { sampleState with regs := { sampleState.regs with cs := 8, esp := 0x7f00 } }
    let t : State :=
      { hwintIn sampleImage 0 s with
        regs := { (hwintIn sampleImage 0 s).regs with eax := 5, ecx := 6 } }
    GoesOn sampleImage s (hwintOut sampleImage t) s.regs :=
  (context_nested (by decide) (by decide) (by decide)).1 0 ⟨rfl, rfl, rfl, fun _ _ _ => rfl⟩

end Context

end SimpleOs
