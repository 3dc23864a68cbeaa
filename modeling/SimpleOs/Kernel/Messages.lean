import SimpleOs.Kernel.Outcome

/-!
# Messages in memory

How the memory operations of the IPC path act on whole messages: stamping the
source, copying, and writing elsewhere.
-/

namespace SimpleOs

open ByteMem

/-! ## Reading a message -/

/-- Reading a word of a message depends on the bytes of the message only. -/
theorem readWord_message {mem mem' : Mem} {a a' : Addr} (c : ℕ) (hc : c + 4 ≤ 48)
    (h : ∀ i < 48, mem (a + BitVec.ofNat 32 i) = mem' (a' + BitVec.ofNat 32 i)) :
    readWord mem (a + BitVec.ofNat 32 c) = readWord mem' (a' + BitVec.ofNat 32 c) := by
  apply readWord_congr
  intro i hi
  have hadd : ∀ b : Addr,
      b + BitVec.ofNat 32 c + BitVec.ofNat 32 i = b + BitVec.ofNat 32 (c + i) := by
    intro b
    rw [BitVec.add_assoc, BitVec.ofNat_add]
  rw [hadd, hadd]
  exact h (c + i) (by omega)

theorem readMessage_congr {mem mem' : Mem} {a a' : Addr}
    (h : ∀ i < 48, mem (a + BitVec.ofNat 32 i) = mem' (a' + BitVec.ofNat 32 i)) :
    readMessage mem a = readMessage mem' a' := by
  have h0 := readWord_message 0 (by omega) h
  rw [BitVec.add_zero, BitVec.add_zero] at h0
  have hw : ∀ c : ℕ, c + 4 ≤ 48 → readWord mem (a + BitVec.ofNat 32 c) =
      readWord mem' (a' + BitVec.ofNat 32 c) := fun c hc => readWord_message c hc h
  simp only [readMessage, Message.mk.injEq]
  exact ⟨h0, hw 4 (by omega), hw 8 (by omega), hw 12 (by omega), hw 16 (by omega),
    hw 20 (by omega), congrArg₂ _ (hw 28 (by omega)) (hw 24 (by omega)),
    congrArg₂ _ (hw 36 (by omega)) (hw 32 (by omega)), hw 40 (by omega), hw 44 (by omega)⟩

/-- The block of memory that a message occupies. -/
abbrev InMessage (la a : Addr) : Prop := InBlock la sizeofMessage a

/-- Nothing outside the message matters. -/
theorem readMessage_frame {mem mem' : Mem} {la : Addr}
    (h : ∀ a, InMessage la a → mem' a = mem a) : readMessage mem' la = readMessage mem la :=
  readMessage_congr fun i hi => h _ (inBlock_add hi (by decide))

/-! ## The operations -/

theorem readMessage_copy {mem : Mem} {dest src : Addr}
    (h : NoForwardOverlap sizeofMessage dest src) :
    readMessage (pAsmMemcpy mem dest src sizeofMessage) dest = readMessage mem src :=
  readMessage_congr fun i hi => copy_dst h hi (by decide)

/-- A word of the message other than the one written. -/
theorem readWord_writeWord_ne {mem : Mem} {a b : Addr} {v : BitVec 32} (h : Apart 4 a b) :
    readWord (writeWord mem a v) b = readWord mem b := by
  apply readWord_congr
  intro i hi
  exact writeWord_out fun hc => h.symm.not_inBlock (inBlock_add hi (by omega)) hc

/-- Two words at different offsets of one message. -/
theorem apart_offsets (a c d : Addr) (h : Apart 4 c d) : Apart 4 (a + c) (a + d) := by
  unfold Apart at *
  rw [show a + d - (a + c) = d - c by bv_omega, show a + c - (a + d) = c - d by bv_omega]
  exact h

theorem apart_zero_offset (a d : Addr) (h : Apart 4 0 d) : Apart 4 a (a + d) := by
  have := apart_offsets a 0 d h
  rwa [show a + 0 = a by bv_omega] at this

theorem readMessage_writeSource (mem : Mem) (la : Addr) (v : BitVec 32) :
    readMessage (writeWord mem la v) la = { readMessage mem la with source := v } := by
  unfold readMessage
  rw [readWord_writeWord]
  repeat rw [readWord_writeWord_ne (apart_zero_offset la _ (by decide))]

theorem stampSource_message (k : Machine) (p : Pid) (m : Addr) :
    readMessage (stampSource k p m).mem (linear k.procTable p m) =
      { readMessage k.mem (linear k.procTable p m) with
        source := BitVec.ofInt 32 (proc2pid p) } := by
  have h0 : linear k.procTable p m + offSource = linear k.procTable p m := BitVec.add_zero _
  unfold stampSource
  rw [h0]
  exact readMessage_writeSource _ _ _

/-- Stamping writes four bytes of the caller's message. -/
theorem stampSource_out {k : Machine} {p : Pid} {m a : Addr}
    (h : ¬ InBlock (linear k.procTable p m) 4 a) : (stampSource k p m).mem a = k.mem a := by
  have h0 : linear k.procTable p m + offSource = linear k.procTable p m := BitVec.add_zero _
  unfold stampSource
  rw [h0]
  exact writeWord_out h

/-! ## Messages apart -/

/-- Two messages without a common address do not overlap. -/
theorem noForwardOverlap_of_disjoint {dest src : Addr}
    (h : ∀ a, InMessage dest a → ¬ InMessage src a) : NoForwardOverlap sizeofMessage dest src := by
  by_contra hc
  unfold NoForwardOverlap at hc
  refine h dest ?_ ?_
  · simp [InBlock]
  · unfold InMessage InBlock
    omega

/-- Two messages have no address in common. -/
def Separate (p q : Addr) : Prop := ∀ a, InMessage p a → ¬ InMessage q a

theorem Separate.symm {p q : Addr} (h : Separate p q) : Separate q p := fun a hq hp => h a hp hq

theorem Separate.noForwardOverlap {p q : Addr} (h : Separate p q) :
    NoForwardOverlap sizeofMessage p q := noForwardOverlap_of_disjoint h

/-- A message apart from the two that are written. -/
theorem readMessage_kept {mem mem' : Mem} {p q r : Addr}
    (h : ∀ a, ¬ InMessage p a → ¬ InMessage q a → mem' a = mem a) (hp : Separate r p)
    (hq : Separate r q) : readMessage mem' r = readMessage mem r :=
  readMessage_frame fun a ha => h a (hp a ha) (hq a ha)

theorem stampSource_kept {k : Machine} {p : Pid} {m a : Addr}
    (h : ¬ InMessage (linear k.procTable p m) a) : (stampSource k p m).mem a = k.mem a := by
  apply stampSource_out
  unfold InMessage InBlock sizeofMessage at *
  omega

/-- What a call that transfers a message writes. -/
theorem transfer_kept {k : Machine} {p : Pid} {m dest src a : Addr}
    (hp : ¬ InMessage (linear k.procTable p m) a) (hd : ¬ InMessage dest a) :
    pAsmMemcpy (stampSource k p m).mem dest src sizeofMessage a = k.mem a :=
  (copy_out hd).trans (stampSource_kept hp)

theorem readMessage_writeRetval (mem : Mem) (la : Addr) (v : BitVec 32) :
    readMessage (writeWord mem (la + offM3i1) v) la = { readMessage mem la with m3i1 := v } := by
  have h0 : Apart 4 (la + offM3i1) la := (apart_zero_offset la 8 (by decide)).symm
  unfold readMessage
  rw [readWord_writeWord_ne h0, readWord_writeWord]
  repeat rw [readWord_writeWord_ne (apart_offsets la _ _ (by decide))]

end SimpleOs
