import SimpleOs.Lib.Transition
import SimpleOs.Tty.Terminal

/-!
# Selecting a terminal

`select_tty` (tty/tty.c:15-56) with any number. It checks `cur_tty_index`, which is the old
number, and then takes over the new one.

* `selectRun_safe_iff`: a sequence of calls is safe if and only if all numbers are those
  of terminals.
-/

namespace SimpleOs

open Transition

namespace Terminal

/-- `TTY_NUM`. -/
abbrev TTY_NUM : ℤ := 4

/-- The number of a terminal. -/
def IsTty (i : ℤ) : Prop := 0 ≤ i ∧ i < TTY_NUM

instance (i : ℤ) : Decidable (IsTty i) := inferInstanceAs (Decidable (_ ∧ _))

/-- A call of `select_tty` that returns: a number that is no terminal's is refused, and the
    current number is one; so `select_tty`, `is_current_tty` and `tty_do_write` access
    `tty_table` inside its bounds. -/
def SelectSafe (s : State) (i : ℤ) : Prop :=
  ∃ r s', selectTty s i = some (r, s') ∧ IsTty s'.curTtyIndex ∧
    (¬ IsTty i → r = -1 ∧ s'.curTtyIndex = s.curTtyIndex) ∧
    (∃ cur, s'.curTty = some cur) ∧ ∀ t, ∃ s'', ttyDoWrite s' t = some s''

/-- Calls in a row. -/
def selectAll (s : State) (numbers : List ℤ) : Option State :=
  numbers.foldlM (fun s i => (selectTty s i).map Prod.snd) s

theorem isTty_iff {i : ℤ} : IsTty i ↔ ∃ t : TtyId, i = t.val := by
  constructor
  · rintro ⟨hlo, hhi⟩
    have hlt : i < 4 := hhi
    refine ⟨⟨i.toNat, by omega⟩, ?_⟩
    show i = (i.toNat : ℤ)
    omega
  · rintro ⟨t, rfl⟩
    have hlt := t.isLt
    exact ⟨by omega, show (t.val : ℤ) < 4 by omega⟩

theorem ttyDoWrite_some {s : State} {cur : TtyId} (hcur : s.curTtyIndex = cur.val) (t : TtyId) :
    ∃ s', ttyDoWrite s t = some s' := by
  by_cases hcount : (s.ttyTable t).inbuf.count = 0
  · exact ⟨s, ttyDoWrite_empty hcount⟩
  · exact ⟨_, ttyDoWrite_eq hcur hcount⟩

/-- Whatever the old number, the new one is taken over when the old one is a terminal's. -/
theorem selectTty_none {s : State} (hcur : IsTty s.curTtyIndex) {i : ℤ} (hi : ¬ IsTty i) :
    selectTty s i = none := by
  have hold : 0 ≤ s.curTtyIndex ∧ s.curTtyIndex < 4 := hcur
  have hnone : State.curTty { s with curTtyIndex := i } = none := dif_neg hi
  unfold selectTty
  rw [if_pos hold]
  dsimp only
  rw [hnone]

/-- The step lemma. -/
theorem selectSafe_iff {s : State} (hcur : IsTty s.curTtyIndex) (i : ℤ) :
    SelectSafe s i ↔ IsTty i := by
  constructor
  · rintro ⟨r, s', hsel, _⟩
    by_contra hi
    rw [selectTty_none hcur hi] at hsel
    cases hsel
  · intro hi
    obtain ⟨old, hold⟩ := isTty_iff.mp hcur
    obtain ⟨t, rfl⟩ := isTty_iff.mp hi
    refine ⟨0, _, selectTty_eq hold, hi, fun hnot => absurd hi hnot, ⟨t, ?_⟩, fun u => ?_⟩
    · exact State.curTty_eq_some.mpr rfl
    · exact @ttyDoWrite_some _ t rfl u

theorem selectAll_concat {s s' : State} {numbers : List ℤ} {i : ℤ} :
    selectAll s (numbers ++ [i]) = some s' ↔
      ∃ s₁, selectAll s numbers = some s₁ ∧ ∃ r, selectTty s₁ i = some (r, s') := by
  unfold selectAll
  rw [List.foldlM_append]
  simp [Option.bind_eq_some_iff]

/-- Numbers of terminals are selected one behind the other. -/
theorem selectAll_isTty {s : State} (hcur : IsTty s.curTtyIndex) {numbers : List ℤ}
    (h : ∀ i ∈ numbers, IsTty i) :
    ∃ s', selectAll s numbers = some s' ∧ IsTty s'.curTtyIndex := by
  induction numbers using List.reverseRecOn with
  | nil => exact ⟨s, rfl, hcur⟩
  | append_singleton numbers i ih =>
    obtain ⟨s₁, hs₁, hcur₁⟩ := ih fun j hj => h j (List.mem_append_left _ hj)
    obtain ⟨r, s', hsel, hcur', _⟩ := (selectSafe_iff hcur₁ i).mpr (h i (by simp))
    exact ⟨s', selectAll_concat.mpr ⟨s₁, hs₁, r, hsel⟩, hcur'⟩

/-- For every sequence of calls behind `task_tty`'s initialisation: all of them are safe if
    and only if all numbers are those of terminals. -/
theorem selectRun_safe_iff {s0 s : State} (hzero : s0.curTtyIndex = 0)
    (hinit : taskTtyInit s0 = some s) (numbers : List ℤ) :
    (∀ pre i s₁, pre ++ [i] <+: numbers → selectAll s pre = some s₁ → SelectSafe s₁ i) ↔
      ∀ i ∈ numbers, IsTty i := by
  have hcur : IsTty s.curTtyIndex := by
    rw [taskTtyInit_eq hzero] at hinit
    rw [← Option.some.inj hinit]
    exact isTty_iff.mpr ⟨0, rfl⟩
  constructor
  · intro hall
    -- the numbers before a call are those of terminals, so it is reached
    refine prefix_induction (P := fun pre => ∀ i ∈ pre, IsTty i) ?_ ?_ List.prefix_rfl
    · simp
    · intro pre i hpre hold
      obtain ⟨s₁, hs₁, hcur₁⟩ := selectAll_isTty hcur hold
      have hi := (selectSafe_iff hcur₁ i).mp (hall pre i s₁ hpre hs₁)
      simpa [or_imp, forall_and] using ⟨hold, hi⟩
  · intro hall pre i s₁ hpre hs₁
    have hmem : ∀ j ∈ pre ++ [i], IsTty j := fun j hj => hall j (hpre.subset hj)
    obtain ⟨s', hs', hcur₁⟩ := selectAll_isTty hcur fun j hj => hmem j (List.mem_append_left _ hj)
    rw [hs'] at hs₁
    obtain rfl := Option.some.inj hs₁
    exact (selectSafe_iff hcur₁ i).mpr (hmem i (by simp))

/-- Two terminals in turn. -/
theorem selectRun_safe_iff_two : ∃ s, taskTtyInit bss = some s ∧
    ((∀ pre i s₁, pre ++ [i] <+: [1, 2] → selectAll s pre = some s₁ → SelectSafe s₁ i) ↔
      ∀ i ∈ [(1 : ℤ), 2], IsTty i) :=
  ⟨_, taskTtyInit_eq rfl, selectRun_safe_iff rfl (taskTtyInit_eq rfl) [1, 2]⟩

/-- The number 7 is not refused: `tty_table[7]` is read. -/
theorem seven_is_selected : ∃ s, taskTtyInit bss = some s ∧ s.curTtyIndex = 0 ∧
    selectTty s 7 = none ∧ ¬ SelectSafe s 7 := by
  refine ⟨_, taskTtyInit_eq rfl, rfl, selectTty_none (by decide) (by decide), fun hsafe => ?_⟩
  exact absurd ((selectSafe_iff (by decide) 7).mp hsafe) (by decide)

end Terminal

end SimpleOs
