import SimpleOs.Lib.ByteMem

/-!
# Loading segments

A loader copies a list of segments out of a file that stays where it is. Between two copies
it may write elsewhere. When the destinations are apart from each other, from the file and
from that elsewhere, the order does not matter: every segment arrives, and nothing else
changes.

* `CopyRun.kept`: what a run leaves alone.
* `CopyRun.copied`: every segment arrives as it stood in the file.
-/

namespace ByteMem

/-- `len` bytes to be copied from `src` to `dest`. -/
structure Segment where
  dest : Addr
  src : Addr
  len : ℕ

/-- The addresses that the copy of a segment writes. -/
def Segment.Covers (s : Segment) (a : Addr) : Prop := InBlock s.dest s.len a

/-- The two memories differ in `V` only. -/
def SameOutside (V : Addr → Prop) (mem mem' : Mem) : Prop := ∀ a, ¬ V a → mem' a = mem a

theorem SameOutside.refl (V : Addr → Prop) (mem : Mem) : SameOutside V mem mem := fun _ _ => rfl

theorem SameOutside.trans {V : Addr → Prop} {mem mem' mem'' : Mem} (h : SameOutside V mem mem')
    (h' : SameOutside V mem' mem'') : SameOutside V mem mem'' :=
  fun a ha => (h' a ha).trans (h a ha)

/-- The segments are copied one after the other, with writes into `V` in between. -/
inductive CopyRun (V : Addr → Prop) : List Segment → Mem → Mem → Prop
  | done {mem mem' : Mem} (h : SameOutside V mem mem') : CopyRun V [] mem mem'
  | copy {s : Segment} {l : List Segment} {mem mem₁ mem' : Mem} (h : SameOutside V mem mem₁)
      (hr : CopyRun V l (copy mem₁ s.dest s.src s.len) mem') : CopyRun V (s :: l) mem mem'

variable {V K : Addr → Prop} {l : List Segment} {mem mem' mem'' : Mem}

/-- Writes into `V` before a run. -/
theorem CopyRun.after (h : SameOutside V mem mem') (hr : CopyRun V l mem' mem'') :
    CopyRun V l mem mem'' := by
  cases hr with
  | done h' => exact .done (h.trans h')
  | copy h' hr => exact .copy (h.trans h') hr

/-- Writes into `V` behind it. -/
theorem CopyRun.before (hr : CopyRun V l mem mem') (h : SameOutside V mem' mem'') :
    CopyRun V l mem mem'' := by
  induction hr with
  | done h' => exact .done (h'.trans h)
  | copy h' _ ih => exact .copy h' (ih h)

/-- What is neither in `V` nor in a destination stays as it is. -/
theorem CopyRun.kept (hr : CopyRun V l mem mem') {a : Addr} (hV : ¬ V a)
    (ha : ∀ s ∈ l, ¬ s.Covers a) : mem' a = mem a := by
  induction hr with
  | done h => exact h a hV
  | @copy s l mem mem₁ mem' h _ ih =>
    obtain ⟨hs, hl⟩ := List.forall_mem_cons.mp ha
    rw [ih hl, copy_out hs]
    exact h a hV

/-- The destinations are apart from the file `K` and from `V`. -/
structure Relocatable (V K : Addr → Prop) (l : List Segment) : Prop where
  file : ∀ a, K a → ¬ V a
  src : ∀ s ∈ l, ∀ j < s.len, K (s.src + BitVec.ofNat 32 j)
  dest : ∀ s ∈ l, ∀ a, s.Covers a → ¬ K a ∧ ¬ V a
  len : ∀ s ∈ l, s.len ≤ 2 ^ 32
  apart : l.Pairwise fun s s' => ∀ a, s.Covers a → ¬ s'.Covers a

theorem Relocatable.tail {s : Segment} (h : Relocatable V K (s :: l)) : Relocatable V K l where
  file := h.file
  src s' hs' := h.src s' (List.mem_cons_of_mem _ hs')
  dest s' hs' := h.dest s' (List.mem_cons_of_mem _ hs')
  len s' hs' := h.len s' (List.mem_cons_of_mem _ hs')
  apart := (List.pairwise_cons.mp h.apart).2

/-- A destination that began inside its source would begin in the file. -/
theorem Relocatable.noForwardOverlap {s : Segment} (h : Relocatable V K (s :: l)) :
    NoForwardOverlap s.len s.dest s.src := by
  by_contra hc
  unfold NoForwardOverlap at hc
  have hmem : s ∈ s :: l := List.mem_cons_self ..
  have hfile := h.src s hmem (s.dest - s.src).toNat (by omega)
  have haddr : s.src + BitVec.ofNat 32 (s.dest - s.src).toNat = s.dest := by bv_omega
  have hcovers : s.Covers s.dest := by
    unfold Segment.Covers InBlock
    rw [BitVec.sub_self]
    have hzero : (0#32).toNat = 0 := rfl
    omega
  rw [haddr] at hfile
  exact (h.dest s hmem s.dest hcovers).1 hfile

/-- Every segment arrives. -/
theorem CopyRun.copied (hr : CopyRun V l mem mem') (h : Relocatable V K l) :
    ∀ s ∈ l, ∀ j < s.len, mem' (s.dest + BitVec.ofNat 32 j) = mem (s.src + BitVec.ofNat 32 j) := by
  induction hr with
  | done _ => exact fun s hs => absurd hs List.not_mem_nil
  | @copy s l mem mem₁ mem' hsame hr ih =>
    have hmem : s ∈ s :: l := List.mem_cons_self ..
    intro s' hs' j hj
    rcases List.mem_cons.mp hs' with rfl | hs'
    · -- the later segments leave it alone
      have hcovers : s'.Covers (s'.dest + BitVec.ofNat 32 j) := inBlock_add hj (h.len s' hmem)
      have hlater : ∀ s'' ∈ l, ¬ s''.Covers (s'.dest + BitVec.ofNat 32 j) :=
        fun s'' hs'' => (List.pairwise_cons.mp h.apart).1 s'' hs'' _ hcovers
      rw [hr.kept (h.dest s' hmem _ hcovers).2 hlater,
        copy_dst h.noForwardOverlap hj (h.len s' hmem)]
      exact hsame _ (h.file _ (h.src s' hmem j hj))
    · -- the first one leaves the file alone
      have hK := h.src s' (List.mem_cons_of_mem _ hs') j hj
      have hout : ¬ s.Covers (s'.src + BitVec.ofNat 32 j) := fun hc => (h.dest s hmem _ hc).1 hK
      rw [ih h.tail s' hs' j hj, copy_out hout]
      exact hsame _ (h.file _ hK)

end ByteMem
