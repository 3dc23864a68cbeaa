import SimpleOs.Fs.NoTrace
import SimpleOs.Io.Screen
import Mathlib.Algebra.BigOperators.Group.Finset.Basic

/-!
# Where a lookup writes

`romfs_namei` (fs/romfs.c:102-209) copies the ramdisk, prints about every header that it
passes, dumps the file behind it and fills an inode. Every byte should land in a block that
the call has got from `alloc_mem` or in the text video memory; nothing in the code compares
the size of the ramdisk, the number of a line, the size of a file or the length of a name
with the space that there is.

* `namei_writes_iff`: which lookups stay there.
* `dump_leaves_screen`: one that does not.
-/

namespace SimpleOs

open ByteMem Bitmap Logged Walk

/-- The addresses that an effect writes. -/
def RomfsEffect.Writes : RomfsEffect → Addr → Prop
  | .alloc _, _ => False
  | .dout dest size, a => InBlock dest size.toNat a
  | .screen out, a => ∃ w ∈ out, w.1 = a
  | .store p off, a => InBlock (p + off) 4 a

/-- The blocks that the call has got, behind an effect. -/
def RomfsEffect.blocks (own : List Addr) : RomfsEffect → List Addr
  | .alloc p => if p = 0 then own else p :: own
  | _ => own

/-- An address in the video memory or in one of the blocks. -/
def Allowed (own : List Addr) (a : Addr) : Prop := InTextMemory a ∨ ∃ p ∈ own, InBlock p blockSize a

/-- Every byte that is written lies in the video memory or in a block got before. -/
def OwnWrites : List Addr → List RomfsEffect → Prop
  | _, [] => True
  | own, e :: l => (∀ a, e.Writes a → Allowed own a) ∧ OwnWrites (e.blocks own) l

theorem ownWrites_screens {own : List Addr} {l m : List RomfsEffect}
    (hl : ∀ e ∈ l, ∃ out, e = .screen out) :
    OwnWrites own (l ++ m) ↔
      (∀ e ∈ l, ∀ a, e.Writes a → Allowed own a) ∧ OwnWrites own m := by
  induction l with
  | nil =>
    rw [List.nil_append]
    exact ⟨fun h => ⟨fun e he => absurd he List.not_mem_nil, h⟩, fun h => h.2⟩
  | cons e l ih =>
    obtain ⟨out, rfl⟩ := hl e (List.mem_cons_self ..)
    have hrest := ih fun e he => hl e (List.mem_cons_of_mem _ he)
    rw [List.forall_mem_cons, and_assoc, ← hrest]
    rfl

/-! ## One header -/

section

variable {mem : Mem} {buf dir : Addr} {own : List Addr}

/-- The number of lines that `romfs_namei` prints about a header that it passes. -/
def progressLines (mem : Mem) (buf : Addr) (off : BitVec 32) : ℕ :=
  if off ≠ 0 ∧ contentOffset mem buf off ≠ 0 then 2 else 1

/-- A file that is dumped has no more bytes (as an `int`) than the video memory holds. -/
def DumpFits (mem : Mem) (buf : Addr) (off : BitVec 32) : Prop :=
  off ≠ 0 ∧ contentOffset mem buf off ≠ 0 → (beWord mem (buf + off + 8)).toInt ≤ 5461

theorem passHeader_line (line : ℕ) (off : BitVec 32) :
    (passHeader mem buf line off).2 = line + progressLines mem buf off := by
  unfold passHeader passEntry progressLines
  dsimp only
  split_ifs
  · rfl
  · rfl

/-- The parts of the output about a header. -/
theorem mem_passHeader (line : ℕ) (off : BitVec 32) (w : Addr × Byte) :
    w ∈ (passHeader mem buf line off).1 ↔
      (w ∈ clearLine (BitVec.ofNat 8 line) ∨
        w ∈ s32PrintStr (strBytes "next_offset:") (videoAddr (160 * line)) ∨
        w ∈ s32PrintInt off (videoAddr (160 * line + 24)) 16) ∨
      (off ≠ 0 ∧ contentOffset mem buf off ≠ 0) ∧
        (w ∈ clearLine (BitVec.ofNat 8 (line + 1)) ∨
          w ∈ s32PrintStr (strBytes "fn_con_off:") (videoAddr (160 * (line + 1))) ∨
          w ∈ s32PrintInt (contentOffset mem buf off) (videoAddr (160 * (line + 1) + 24)) 16 ∨
          w ∈ clearLine 0 ∨ w ∈ clearLine 1 ∨
          w ∈ pDump mem (buf + contentOffset mem buf off) (beWord mem (buf + off + 8))) := by
  have haddr : ∀ l, lineAddr l + 12 * 2 = videoAddr (160 * l + 24) :=
    fun l => videoAddr_add (160 * l) 24
  unfold passHeader passEntry
  dsimp only
  rw [haddr, haddr, lineAddr_eq, lineAddr_eq]
  by_cases h : off ≠ 0 ∧ contentOffset mem buf off ≠ 0
  · rw [if_pos h]
    simp only [List.mem_append, h, or_assoc, true_and, ne_eq, not_false_eq_true]
  · rw [if_neg h]
    simp only [List.mem_append, h, or_assoc, false_and, or_false]

theorem line_toNat {line : ℕ} (h : line ≤ 204) : (BitVec.ofNat 8 line).toNat = line := by
  rw [BitVec.toNat_ofNat]
  omega

/-- The output about a header stays in the video memory if and only if its lines are above
    line 204 and its file is short. -/
theorem passHeader_allowed_iff {line : ℕ} {off : BitVec 32} (hline : line ≤ 204)
    (hend : ¬ Allowed own 0xc0000) :
    (∀ w ∈ (passHeader mem buf line off).1, Allowed own w.1) ↔
      line + progressLines mem buf off ≤ 204 ∧ DumpFits mem buf off := by
  have hstray : ∀ {out : Output}, (∃ w ∈ out, w.1 = 0xc0000) →
      (∀ w ∈ out, w ∈ (passHeader mem buf line off).1) →
      ¬ ∀ w ∈ (passHeader mem buf line off).1, Allowed own w.1 := by
    rintro out ⟨w, hw, heq⟩ hsub hall
    rw [← heq] at hend
    exact hend (hall w (hsub w hw))
  constructor
  · intro hall
    have hfirst : line ≠ 204 := by
      rintro rfl
      exact hstray clearLine_stray
        (fun w hw => (mem_passHeader 204 off w).mpr (.inl (.inl hw))) hall
    by_cases hc : off ≠ 0 ∧ contentOffset mem buf off ≠ 0
    · have hsecond : line + 1 ≠ 204 := by
        intro heq
        refine hstray clearLine_stray (fun w hw => ?_) hall
        rw [mem_passHeader, heq]
        exact .inr ⟨hc, .inl hw⟩
      constructor
      · rw [progressLines, if_pos hc]
        omega
      · intro _
        by_contra hlong
        refine hstray (pDump_stray mem (buf + contentOffset mem buf off) (not_le.mp hlong))
          (fun w hw => ?_) hall
        rw [mem_passHeader]
        exact .inr ⟨hc, .inr (.inr (.inr (.inr (.inr hw))))⟩
    · constructor
      · rw [progressLines, if_neg hc]
        omega
      · exact fun h => absurd h hc
  · rintro ⟨hlines, hdump⟩ w hw
    have hlen1 : (strBytes "next_offset:").length = 12 := by decide
    have hlen2 : (strBytes "fn_con_off:").length = 11 := by decide
    have hone : 1 ≤ progressLines mem buf off := by
      unfold progressLines
      split_ifs
      · omega
      · omega
    refine .inl ?_
    rcases (mem_passHeader line off w).mp hw with (hw | hw | hw) | ⟨hc, hw⟩
    · exact clearLine_inText (by rw [line_toNat hline]; omega) w hw
    · exact s32PrintStr_inText (by omega) w hw
    · exact s32PrintInt_inText (by omega) w hw
    · rw [progressLines, if_pos hc] at hlines
      rcases hw with hw | hw | hw | hw | hw | hw
      · exact clearLine_inText (by rw [line_toNat (by omega)]; omega) w hw
      · exact s32PrintStr_inText (by omega) w hw
      · exact s32PrintInt_inText (by omega) w hw
      · exact clearLine_inText (by decide) w hw
      · exact clearLine_inText (by decide) w hw
      · exact pDump_inText (hdump hc) w hw

/-! ## The loop -/

/-- `progressLines` for the headers that are tested up to the one with the number `n`. -/
def linesUpTo (mem : Mem) (buf : Addr) (off : BitVec 32) (n : ℕ) : ℕ :=
  ∑ i ∈ Finset.range (n + 1), progressLines mem buf (tested mem buf off i)

theorem linesUpTo_zero (off : BitVec 32) :
    linesUpTo mem buf off 0 = progressLines mem buf (nextHeader mem buf off) := by
  unfold linesUpTo
  rw [Finset.sum_range_one]
  rfl

theorem linesUpTo_succ (off : BitVec 32) (n : ℕ) :
    linesUpTo mem buf off (n + 1) =
      progressLines mem buf (nextHeader mem buf off) +
        linesUpTo mem buf (nextHeader mem buf off) n := by
  unfold linesUpTo
  rw [Finset.sum_range_succ', Nat.add_comm]
  rfl

/-- The header with the number `n` is passed. -/
def PassedAt (mem : Mem) (buf dir : Addr) (off : BitVec 32) (n : ℕ) : Prop :=
  Reaches (nextHeader mem buf) (EndsAt mem buf dir) off n ∧
    ¬ HasName mem buf dir (tested mem buf off n)

/-- The first header that is tested, and the ones behind it. -/
theorem forall_passed {p : ℕ → Prop} {fuel : ℕ} {off : BitVec 32} :
    (∀ n < fuel + 1, PassedAt mem buf dir off n → p n) ↔
      (¬ HasName mem buf dir (nextHeader mem buf off) → p 0) ∧
        (¬ EndsAt mem buf dir (nextHeader mem buf off) →
          ∀ n < fuel, PassedAt mem buf dir (nextHeader mem buf off) n → p (n + 1)) := by
  have hround : (∀ n < fuel + 1, Reaches (nextHeader mem buf) (EndsAt mem buf dir) off n →
      ¬ HasName mem buf dir (tested mem buf off n) → p n) ↔ _ := forall_reaches
  simp only [PassedAt, and_imp]
  rw [hround]
  simp only [tested, candidate_zero, candidate_succ]

theorem writes_screen {e : RomfsEffect} {out : Output} (h : e = .screen out) :
    (∀ a, e.Writes a → Allowed own a) ↔ ∀ w ∈ out, Allowed own w.1 := by
  rw [h]
  constructor
  · exact fun h w hw => h w.1 ⟨w, hw, rfl⟩
  · rintro h a ⟨w, hw, rfl⟩
    exact h w hw

theorem endMark_allowed :
    ∀ w ∈ clearLine 25 ++ s32PrintStr (strBytes "scan romfs ok") (lineAddr 25),
      Allowed own w.1 := by
  have hlen : (strBytes "scan romfs ok").length = 13 := by decide
  intro w hw
  rcases List.mem_append.mp hw with hw | hw
  · exact .inl (clearLine_inText (by decide) w hw)
  · exact .inl (s32PrintStr_inText (by omega) w hw)

/-- The output of the loop stays in the video memory if and only if that about every header
    that is passed does. -/
theorem scanEntriesLog_allowed_iff (hnul : ∃ z, mem z = 0) (hend : ¬ Allowed own 0xc0000)
    (fuel : ℕ) {line : ℕ} (hline : line ≤ 204) (off : BitVec 32) :
    (∀ e ∈ (scanEntriesLog mem buf dir fuel line off).log, ∀ a, e.Writes a → Allowed own a) ↔
      ∀ n < fuel, PassedAt mem buf dir off n →
        line + linesUpTo mem buf off n ≤ 204 ∧ DumpFits mem buf (tested mem buf off n) := by
  induction fuel generalizing line off with
  | zero => exact ⟨fun _ n hn => absurd hn (Nat.not_lt_zero n), fun _ e he => by cases he⟩
  | succ fuel ih =>
    rw [forall_passed]
    simp only [linesUpTo_zero, linesUpTo_succ, tested, candidate_zero, candidate_succ]
    by_cases hname : HasName mem buf dir (nextHeader mem buf off)
    · rw [scanEntriesLog_found hnul hname]
      constructor
      · exact fun _ => ⟨fun hno => absurd hname hno, fun hgo => absurd (.inr hname) hgo⟩
      · exact fun _ e he => by cases he
    · have hpass : (∀ w ∈ (passHeader mem buf line (nextHeader mem buf off)).1,
          Allowed own w.1) ↔ _ := passHeader_allowed_iff hline hend
      by_cases hzero : nextHeader mem buf off = 0
      · rw [hzero] at hname hpass ⊢
        rw [scanEntriesLog_end hnul hzero hname, List.forall_mem_cons, List.forall_mem_singleton,
          writes_screen rfl, writes_screen rfl, hpass]
        constructor
        · exact fun h => ⟨fun _ => h.1, fun hgo => absurd (.inl rfl) hgo⟩
        · exact fun h => ⟨h.1 hname, endMark_allowed⟩
      · have hgo : ¬ EndsAt mem buf dir (nextHeader mem buf off) := not_or.mpr ⟨hzero, hname⟩
        rw [scanEntriesLog_passed hnul hgo, emit_bind, List.forall_mem_cons, writes_screen rfl,
          hpass, passHeader_line]
        constructor
        · rintro ⟨hfirst, hrest⟩
          refine ⟨fun _ => hfirst, fun _ n hn hp => ?_⟩
          have hn := (ih hfirst.1 _).mp hrest n hn hp
          rw [← Nat.add_assoc]
          exact hn
        · rintro ⟨hfirst, hrest⟩
          refine ⟨hfirst hname, (ih (hfirst hname).1 _).mpr fun n hn hp => ?_⟩
          rw [Nat.add_assoc]
          exact hrest hgo n hn hp

end

/-! ## The lookup -/

section

variable {sb : SuperBlock} {k : Machine} {dir : Addr}

/-- The output of a lookup has room: the lines about the headers that are passed, the dumps
    of their files, and the name that is found; and there is a block for the inode. -/
structure OutputFits (sb : SuperBlock) (k : Machine) (dir : Addr) : Prop where
  passed : ∀ n, PassedAt (loaded sb k).mem (allocMem k).1 dir
      (firstOffset (loaded sb k).mem (allocMem k).1) n →
    linesUpTo (loaded sb k).mem (allocMem k).1 (firstOffset (loaded sb k).mem (allocMem k).1) n ≤
        197 ∧
      DumpFits (loaded sb k).mem (allocMem k).1 (testedOf sb k n)
  found : LookupFound sb k dir → (allocMem (loaded sb k)).1 ≠ 0 ∧
    ∀ t, IsStr (loaded sb k).mem dir t → t.length ≤ 14451

/-- What a lookup does first. -/
theorem romfsNameiLog_head (hsize : sb.device.storageSize ≠ 0)
    (hnul : ∃ z, (loaded sb k).mem z = 0) (fuel : ℕ) :
    (romfsNameiLog fuel sb k dir).log =
      .alloc (allocMem k).1 :: .dout (allocMem k).1 sb.device.storageSize ::
        (scanOf fuel sb k dir >>= returnInodeLog sb (loaded sb k) (allocMem k).1 dir).log := by
  rw [romfsNameiLog_disk hsize hnul, emit_bind, emit_bind]

/-- A block of `alloc_mem`, above the kernel. -/
def AboveKernel (p : Addr) : Prop := kernelText ≤ p.toNat ∧ p.toNat + blockSize ≤ 2 ^ 32

theorem allocMem_above (hfits : Fits k.mmStart) (habove : kernelText ≤ k.mmStart.toNat)
    (h : (allocMem k).1 ≠ 0) : AboveKernel (allocMem k).1 := by
  rcases allocMem_cases k with ⟨i, _, heq⟩ | ⟨_, heq⟩
  · have haddr := hfits.blockAddr_toNat i
    have hlt := i.isLt
    have hmax := hfits.2
    rw [heq]
    unfold AboveKernel blockSize at *
    dsimp only
    omega
  · rw [heq] at h
    exact absurd rfl h

/-- No block holds an address below the kernel. -/
theorem not_allowed {own : List Addr} (hown : ∀ p ∈ own, AboveKernel p) {a : Addr}
    (hlow : a.toNat < kernelText) (ha : ¬ InTextMemory a) : ¬ Allowed own a := by
  rintro (hvideo | ⟨p, hp, hin⟩)
  · exact ha hvideo
  · obtain ⟨habove, hmax⟩ := hown p hp
    unfold InBlock at hin
    rw [BitVec.toNat_sub] at hin
    omega

/-- The copy stays in its block if and only if the ramdisk is no larger. -/
theorem dout_allowed_iff {buf : Addr} (hbuf : AboveKernel buf) (size : BitVec 32) :
    (∀ a, RomfsEffect.Writes (.dout buf size) a → Allowed [buf] a) ↔
      size.toNat ≤ blockSize := by
  obtain ⟨hlow, hhigh⟩ := hbuf
  constructor
  · intro h
    by_contra hlong
    have hlt : size.toNat < 2 ^ 32 := size.isLt
    have hin : InBlock buf size.toNat (buf + BitVec.ofNat 32 blockSize) :=
      inBlock_add (not_le.mp hlong) (by omega)
    rcases h _ hin with hvideo | ⟨p, hp, hblock⟩
    · unfold InTextMemory at hvideo
      unfold kernelText at hlow
      unfold blockSize at *
      rw [BitVec.toNat_add, BitVec.toNat_ofNat] at hvideo
      omega
    · have hdiff : buf + BitVec.ofNat 32 blockSize - buf = BitVec.ofNat 32 blockSize := by bv_omega
      rw [List.mem_singleton.mp hp, InBlock, hdiff] at hblock
      exact absurd hblock (by decide)
  · intro h a ha
    exact .inr ⟨_, List.mem_singleton_self _, lt_of_lt_of_le ha h⟩

/-- The name stays in the video memory if and only if it is short. -/
theorem name_allowed_iff {own : List Addr} (hown : ∀ p ∈ own, AboveKernel p) (t : List Byte) :
    (∀ w ∈ s32PrintStr t (lineAddr 24 + 13 * 2), Allowed own w.1) ↔ t.length ≤ 14451 := by
  have haddr : lineAddr 24 + 13 * 2 = videoAddr 3866 := by decide
  rw [haddr]
  constructor
  · intro h
    by_contra hlong
    obtain ⟨w, hw, heq⟩ := s32PrintStr_stray (s := t) (n := 3866) (by omega) (by omega) (by omega)
    have hstray := h w hw
    rw [heq] at hstray
    exact not_allowed hown (by decide) (by decide) hstray
  · exact fun h w hw => .inl (s32PrintStr_inText (by omega) w hw)

theorem findMessage_allowed {own : List Addr} :
    ∀ w ∈ clearLine 24 ++ s32PrintStr (strBytes "find fn:") (lineAddr 24), Allowed own w.1 := by
  have hlen : (strBytes "find fn:").length = 8 := by decide
  intro w hw
  rcases List.mem_append.mp hw with hw | hw
  · exact .inl (clearLine_inText (by decide) w hw)
  · exact .inl (s32PrintStr_inText (by omega) w hw)

/-- A word of the inode is in its block. -/
theorem store_allowed {own : List Addr} {p off : Addr} (hp : p ∈ own)
    (hoff : off.toNat + 4 ≤ blockSize) :
    ∀ a, RomfsEffect.Writes (.store p off) a → Allowed own a := by
  intro a ha
  refine .inr ⟨p, hp, ?_⟩
  have hword : (a - (p + off)).toNat < 4 := ha
  unfold InBlock blockSize at *
  bv_omega

/-- The inode is in a block if there is one, and the name on the screen if it is short. -/
theorem fillInodeLog_own_iff {buf : Addr} {off : BitVec 32} {t : List Byte}
    (ht : IsStr k.mem dir t) (hbuf : AboveKernel buf)
    (hinode : (allocMem k).1 ≠ 0 → AboveKernel (allocMem k).1) :
    OwnWrites [buf] (fillInodeLog sb k buf dir off).log ↔
      (allocMem k).1 ≠ 0 ∧ t.length ≤ 14451 := by
  rw [(fillInodeLog_name ht).1]
  by_cases hnull : (allocMem k).1 = 0
  · constructor
    · intro h
      have hown : ∀ p ∈ [buf], AboveKernel p := List.forall_mem_singleton.mpr hbuf
      have hzero : InBlock (0 + offFnName) 4 0 := by decide
      rw [hnull] at h
      have hstore : Allowed [buf] 0 := h.2.2.2.1 0 hzero
      exact absurd hstore (not_allowed hown (by decide) (by decide))
    · exact fun h => absurd hnull h.1
  · have hblocks : RomfsEffect.blocks [buf] (.alloc (allocMem k).1) = [(allocMem k).1, buf] :=
      if_neg hnull
    have hown : ∀ p ∈ [(allocMem k).1, buf], AboveKernel p :=
      List.forall_mem_cons.mpr ⟨hinode hnull, List.forall_mem_singleton.mpr hbuf⟩
    have hmem : (allocMem k).1 ∈ [(allocMem k).1, buf] := List.mem_cons_self ..
    rw [OwnWrites, hblocks]
    constructor
    · intro h
      exact ⟨hnull, (name_allowed_iff hown t).mp ((writes_screen rfl).mp h.2.2.1)⟩
    · intro h
      exact ⟨fun a ha => absurd ha id, (writes_screen rfl).mpr findMessage_allowed,
        (writes_screen rfl).mpr ((name_allowed_iff hown t).mpr h.2),
        store_allowed hmem (by decide), store_allowed hmem (by decide),
        store_allowed hmem (by decide), store_allowed hmem (by decide), trivial⟩

/-- The blocks that a lookup gets. -/
theorem loaded_above (hfits : Fits k.mmStart) (habove : kernelText ≤ k.mmStart.toNat)
    (h : (allocMem (loaded sb k)).1 ≠ 0) : AboveKernel (allocMem (loaded sb k)).1 := by
  have hstart := loaded_mmStart sb k
  apply allocMem_above _ _ h
  · rw [hstart]
    exact hfits
  · rw [hstart]
    exact habove

/-- Where the output of a lookup has room, it stays in the blocks and on the screen. -/
theorem ownWrites_of_fits (hsize : sb.device.storageSize ≠ 0)
    (hnul : ∃ z, (loaded sb k).mem z = 0) (hfits : Fits k.mmStart)
    (habove : kernelText ≤ k.mmStart.toNat) (hbuf : (allocMem k).1 ≠ 0)
    (hcopy : sb.device.storageSize.toNat ≤ blockSize) (hout : OutputFits sb k dir) (fuel : ℕ) :
    OwnWrites [] (romfsNameiLog fuel sb k dir).log := by
  have hblock := allocMem_above hfits habove hbuf
  have hown : ∀ p ∈ [(allocMem k).1], AboveKernel p := List.forall_mem_singleton.mpr hblock
  have hscreens : ∀ e ∈ (scanOf fuel sb k dir).log, ∃ out, e = .screen out :=
    fun e he => scanEntriesLog_screen hnul he
  have hscan : ∀ e ∈ (scanOf fuel sb k dir).log, ∀ a, e.Writes a → Allowed [(allocMem k).1] a := by
    rw [scanEntriesLog_allowed_iff hnul (not_allowed hown (by decide) (by decide)) fuel (by omega)]
    intro n _ hp
    obtain ⟨hlines, hdump⟩ := hout.passed n hp
    exact ⟨by omega, hdump⟩
  rw [romfsNameiLog_head hsize hnul]
  refine ⟨fun a ha => absurd ha id, ?_⟩
  rw [RomfsEffect.blocks, if_neg hbuf]
  refine ⟨(dout_allowed_iff hblock _).mpr hcopy, ?_⟩
  cases hres : (scanOf fuel sb k dir).result with
  | error e =>
    rw [bind_error hres, ← List.append_nil (scanOf fuel sb k dir).log]
    exact (ownWrites_screens hscreens).mpr ⟨hscan, trivial⟩
  | ok found =>
    rw [bind_ok hres]
    refine (ownWrites_screens hscreens).mpr ⟨hscan, ?_⟩
    cases found with
    | none => exact trivial
    | some off =>
      obtain ⟨n, _, hfound, _⟩ := (scanEntriesLog_some hnul 7).mp hres
      obtain ⟨t, ht⟩ := exists_isStr hnul dir
      obtain ⟨hinode, hname⟩ := hout.found ⟨n, hfound⟩
      exact (fillInodeLog_own_iff ht hblock (loaded_above hfits habove)).mpr ⟨hinode, hname t ht⟩

/-- A lookup that stays there has had room. -/
theorem fits_of_ownWrites (hsize : sb.device.storageSize ≠ 0)
    (hnul : ∃ z, (loaded sb k).mem z = 0) (hfits : Fits k.mmStart)
    (habove : kernelText ≤ k.mmStart.toNat)
    (h : ∀ fuel, OwnWrites [] (romfsNameiLog fuel sb k dir).log) :
    (allocMem k).1 ≠ 0 ∧ sb.device.storageSize.toNat ≤ blockSize ∧ OutputFits sb k dir := by
  have hbuf : (allocMem k).1 ≠ 0 := by
    intro hnull
    have hlog := h 0
    rw [romfsNameiLog_head hsize hnul, hnull] at hlog
    have hpos : 0 < sb.device.storageSize.toNat :=
      Nat.pos_of_ne_zero fun hzero => hsize (BitVec.eq_of_toNat_eq hzero)
    have hin : InBlock 0 sb.device.storageSize.toNat 0 := hpos
    have hzero : Allowed [] 0 := hlog.2.1 0 hin
    exact not_allowed (fun p hp => absurd hp List.not_mem_nil) (by decide) (by decide) hzero
  have hblock := allocMem_above hfits habove hbuf
  have hown : ∀ p ∈ [(allocMem k).1], AboveKernel p := List.forall_mem_singleton.mpr hblock
  have htail : ∀ fuel, (∀ a, RomfsEffect.Writes (.dout (allocMem k).1 sb.device.storageSize) a →
        Allowed [(allocMem k).1] a) ∧
      OwnWrites [(allocMem k).1]
        (scanOf fuel sb k dir >>= returnInodeLog sb (loaded sb k) (allocMem k).1 dir).log := by
    intro fuel
    have hlog := h fuel
    rw [romfsNameiLog_head hsize hnul, OwnWrites, RomfsEffect.blocks, if_neg hbuf] at hlog
    exact hlog.2
  have hscreens : ∀ fuel, ∀ e ∈ (scanOf fuel sb k dir).log, ∃ out, e = .screen out :=
    fun fuel e he => scanEntriesLog_screen hnul he
  have hscan : ∀ fuel, ∀ e ∈ (scanOf fuel sb k dir).log, ∀ a, e.Writes a →
      Allowed [(allocMem k).1] a := by
    intro fuel
    have hrest := (htail fuel).2
    cases hres : (scanOf fuel sb k dir).result with
    | error e =>
      rw [bind_error hres, ← List.append_nil (scanOf fuel sb k dir).log] at hrest
      exact ((ownWrites_screens (hscreens fuel)).mp hrest).1
    | ok found =>
      rw [bind_ok hres] at hrest
      exact ((ownWrites_screens (hscreens fuel)).mp hrest).1
  refine ⟨hbuf, (dout_allowed_iff hblock _).mp (htail 0).1, fun n hp => ?_, fun hfound => ?_⟩
  · have hn := (scanEntriesLog_allowed_iff hnul (not_allowed hown (by decide) (by decide)) (n + 1)
      (by omega) _).mp (hscan (n + 1)) n (Nat.lt_succ_self n) hp
    exact ⟨by omega, hn.2⟩
  · obtain ⟨n, hn⟩ := hfound
    obtain ⟨t, ht⟩ := exists_isStr hnul dir
    have hres := (scanEntriesLog_some hnul 7).mpr ⟨n, Nat.lt_succ_self n, hn, rfl⟩
    have hrest := (htail (n + 1)).2
    rw [bind_ok hres] at hrest
    obtain ⟨hinode, hlen⟩ := (fillInodeLog_own_iff ht hblock (loaded_above hfits habove)).mp
      ((ownWrites_screens (hscreens (n + 1))).mp hrest).2
    exact ⟨hinode, fun u hu => hu.unique ht ▸ hlen⟩

/-- A lookup stays in its blocks and in the video memory if and only if the ramdisk fits into
    a block, there is one, and its output has room. The blocks are above the kernel, where
    `mm_init` puts them. -/
theorem namei_writes_iff (sb : SuperBlock) (k : Machine) (dir : Addr) (hfits : Fits k.mmStart)
    (habove : kernelText ≤ k.mmStart.toNat) (hnul : ∃ z, (loaded sb k).mem z = 0) :
    (∀ fuel, OwnWrites [] (romfsNameiLog fuel sb k dir).log) ↔
      sb.device.storageSize = 0 ∨ ((allocMem k).1 ≠ 0 ∧
        sb.device.storageSize.toNat ≤ blockSize ∧ OutputFits sb k dir) := by
  by_cases hsize : sb.device.storageSize = 0
  · constructor
    · exact fun _ => .inl hsize
    · intro _ fuel
      rw [romfsNameiLog_empty hsize, hsize]
      exact ⟨fun a ha => absurd ha id, fun a ha => absurd ha (Nat.not_lt_zero _), trivial⟩
  · constructor
    · exact fun h => .inr (fits_of_ownWrites hsize hnul hfits habove h)
    · intro h
      obtain ⟨hbuf, hcopy, hout⟩ := h.resolve_left hsize
      exact ownWrites_of_fits hsize hnul hfits habove hbuf hcopy hout

end

/-! ### Images -/

theorem namei_writes_iff_echo :
    Fits (diskMachine sampleRomBytes echoName).mmStart ∧
      ∀ fuel, OwnWrites [] (romfsNameiLog fuel (diskSb 192)
        (diskMachine sampleRomBytes echoName) 0x300000).log := by
  have hdir : IsStr (loaded (diskSb 192) (diskMachine sampleRomBytes echoName)).mem 0x300000
      echoName := by
    rw [sampleMem_eq]
    exact sampleMem_echo.2.2.2
  have hfits : Fits (diskMachine sampleRomBytes echoName).mmStart := by decide
  have hfree : 2 ≤ freeBlocks (diskMachine sampleRomBytes echoName).memoryUsed := by decide
  refine ⟨hfits, ?_⟩
  obtain ⟨htested, hname⟩ := sampleMem_found
  rw [← htested] at hname
  refine (namei_writes_iff _ _ _ hfits (by decide) ⟨_, hdir.nul⟩).mpr (.inr ⟨?_, by decide, ?_, ?_⟩)
  · rw [diskMachine_buf]
    decide
  · rintro n ⟨hr, hno⟩
    cases n with
    | zero => exact absurd hname hno
    | succ n => exact absurd (.inr hname) (hr 0 (Nat.succ_pos n))
  · intro _
    refine ⟨(loaded_inode (diskSb 192) hfits).mpr hfree, fun t ht => ?_⟩
    rw [ht.unique hdir]
    decide

/-- The volume `rom` with the directory `.` and a file `a` of 6000 bytes. -/
def bigRom : RomImage := ⟨romName, ⟨32, [0x2e], 0⟩, [⟨64, [0x61], 6000⟩]⟩

def bigRomBytes : List Byte :=
  romMagic ++ (bytesOf 6144).reverse ++ bytesOf 0 ++ romName ++ List.replicate 13 0 ++
    dumpHeader 0x49 32 0 [0x2e] ++ dumpHeader 2 0 6000 [0x61]

def bigRomMem : Mem := copy (romMem bigRomBytes echoName) 0x1000000 0x200000 6144

theorem bigRomMem_eq : (loaded (diskSb 6144) (diskMachine bigRomBytes echoName)).mem = bigRomMem :=
  diskMachine_loaded 6144 bigRomBytes echoName

theorem bigRomMem_a :
    IsStr bigRomMem (0x1000000 + 16) romName ∧ nextHeader bigRomMem 0x1000000 32 = 64 ∧
      beWord bigRomMem (0x1000000 + 64 + 8) = 6000 ∧
      IsStr bigRomMem (0x1000000 + (64 + 16)) [0x61] ∧ IsStr bigRomMem 0x300000 echoName := by
  decide

/-- The lookup of `echo` passes the file and dumps it behind the video memory. -/
theorem dump_leaves_screen :
    bigRom.Stored (diskMachine bigRomBytes echoName).mem 0x200000 6144 ∧
      ¬ ∀ fuel, OwnWrites [] (romfsNameiLog fuel (diskSb 6144) (diskMachine bigRomBytes echoName)
        0x300000).log := by
  obtain ⟨hvol, hnext, hsize, ha, hecho⟩ := bigRomMem_a
  have hnul : ∃ z, (loaded (diskSb 6144) (diskMachine bigRomBytes echoName)).mem z = 0 := by
    rw [bigRomMem_eq]
    exact ⟨_, hecho.nul⟩
  have hfirst : firstOffset bigRomMem 0x1000000 = 32 := firstOffset_rom hvol
  refine ⟨by decide, fun h => ?_⟩
  obtain ⟨_, _, hout⟩ := fits_of_ownWrites (by decide) hnul (by decide) (by decide) h
  have hpassed : PassedAt bigRomMem 0x1000000 0x300000 32 0 := by
    refine ⟨reaches_zero, ?_⟩
    rw [tested, candidate_zero, hnext]
    rintro ⟨t, ht, ht'⟩
    have heq := (ha.unique ht).trans (ht'.unique hecho)
    exact absurd heq (by decide)
  have hdump := (hout.passed 0 (by rw [bigRomMem_eq, diskMachine_buf, hfirst]; exact hpassed)).2
  rw [testedOf_zero, bigRomMem_eq, diskMachine_buf, hfirst, hnext, DumpFits, contentOffset,
    hsize] at hdump
  exact absurd (hdump ⟨by decide, by decide⟩) (by decide)

end SimpleOs
