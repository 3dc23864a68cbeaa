import Mathlib.Data.List.Nodup
import Mathlib.Logic.Function.Basic
import Mathlib.Tactic.Common

/-!
# Intrusive singly linked lists

A list threaded through its own elements: every element holds the link to the
next one, and a head pointer starts the list. `Linked next h l` says that the
elements reached from the head `h` along `next` are exactly those of `l`, in
order, and that the last link is null.

* `Linked.unique`, `Linked.nodup`: the links determine the list, and no element is in it twice.
* `Linked.snoc`, `Linked.unlinkHead`, `Linked.unlink`: appending at the tail,
  removing the head, removing from the middle.
* `Linked.congr`: only the links of the members matter.
-/

namespace Intrusive

variable {α : Type*}

/-- The list reached from the head `h` along `next`. -/
def Linked (next : α → Option α) : Option α → List α → Prop
  | h, [] => h = none
  | h, a :: l => h = some a ∧ Linked next (next a) l

@[simp] theorem linked_nil {next : α → Option α} {h : Option α} :
    Linked next h [] ↔ h = none := Iff.rfl

@[simp] theorem linked_cons {next : α → Option α} {h : Option α} {a : α} {l : List α} :
    Linked next h (a :: l) ↔ h = some a ∧ Linked next (next a) l := Iff.rfl

theorem Linked.unique {next : α → Option α} {h : Option α} {l l' : List α}
    (hl : Linked next h l) (hl' : Linked next h l') : l = l' := by
  induction l generalizing h l' with
  | nil =>
    cases l' with
    | nil => rfl
    | cons b l' => rw [linked_nil] at hl; simp [hl] at hl'
  | cons a l ih =>
    cases l' with
    | nil => rw [linked_nil] at hl'; simp [hl'] at hl
    | cons b l' =>
      obtain ⟨h1, h2⟩ := hl
      obtain ⟨h3, h4⟩ := hl'
      obtain rfl : a = b := by rw [h1] at h3; exact Option.some.inj h3
      rw [ih h2 h4]

/-- What is behind an element of the list. -/
theorem Linked.behind {next : α → Option α} {h : Option α} {l₁ l₂ : List α} {a : α}
    (hl : Linked next h (l₁ ++ a :: l₂)) : Linked next (next a) l₂ := by
  induction l₁ generalizing h with
  | nil => exact hl.2
  | cons b l₁ ih => exact ih hl.2

/-- A list that ends comes to no element twice. -/
theorem Linked.nodup {next : α → Option α} {h : Option α} {l : List α} (hl : Linked next h l) :
    l.Nodup := by
  induction l generalizing h with
  | nil => exact List.nodup_nil
  | cons a l ih =>
    refine List.nodup_cons.mpr ⟨fun ha => ?_, ih hl.2⟩
    obtain ⟨l₁, l₂, rfl⟩ := List.append_of_mem ha
    have hlen := congrArg List.length (hl.2.unique hl.2.behind)
    rw [List.length_append, List.length_cons] at hlen
    omega

theorem Linked.congr {next next' : α → Option α} {h : Option α} {l : List α}
    (hl : Linked next h l) (heq : ∀ a ∈ l, next' a = next a) : Linked next' h l := by
  induction l generalizing h with
  | nil => exact hl
  | cons a l ih =>
    obtain ⟨h1, h2⟩ := hl
    refine ⟨h1, ?_⟩
    rw [heq a (by simp)]
    exact ih h2 fun b hb => heq b (by simp [hb])

section Update

variable [DecidableEq α]

/-- Appending `x` at the tail `p`. -/
theorem Linked.snoc {next : α → Option α} {h : Option α} {l : List α} {p x : α}
    (hl : Linked next h l) (hp : l.getLast? = some p) (hnd : l.Nodup) (hx : x ∉ l) :
    Linked (Function.update (Function.update next p (some x)) x none) h (l ++ [x]) := by
  induction l generalizing h with
  | nil => simp at hp
  | cons a l ih =>
    obtain ⟨h1, h2⟩ := hl
    simp only [List.mem_cons, not_or] at hx
    simp only [List.cons_append, linked_cons]
    refine ⟨h1, ?_⟩
    rw [Function.update_of_ne (Ne.symm hx.1)]
    cases l with
    | nil =>
      obtain rfl : a = p := by simpa using hp
      rw [Function.update_self]
      simp
    | cons b l =>
      have hp' : (b :: l).getLast? = some p := by simpa using hp
      have hap : a ≠ p := by
        rintro rfl
        exact (List.nodup_cons.mp hnd).1 (List.mem_of_getLast? hp')
      rw [Function.update_of_ne hap]
      exact ih h2 hp' (List.nodup_cons.mp hnd).2 hx.2

/-- Removing the head. -/
theorem Linked.unlinkHead {next : α → Option α} {h : Option α} {l : List α} {f : α}
    (hl : Linked next h (f :: l)) (hnd : (f :: l).Nodup) :
    Linked (Function.update next f none) (next f) l := by
  refine hl.2.congr fun a ha => Function.update_of_ne ?_ _ _
  rintro rfl
  exact (List.nodup_cons.mp hnd).1 ha

/-- Removing `f`, which follows `p`. -/
theorem Linked.unlink {next : α → Option α} {h : Option α} {l₁ l₂ : List α} {p f : α}
    (hl : Linked next h (l₁ ++ p :: f :: l₂)) (hnd : (l₁ ++ p :: f :: l₂).Nodup) :
    Linked (Function.update (Function.update next p (next f)) f none) h (l₁ ++ p :: l₂) := by
  induction l₁ generalizing h with
  | nil =>
    simp only [List.nil_append, linked_cons, List.nodup_cons, List.mem_cons, not_or] at hl hnd ⊢
    obtain ⟨⟨hpf, hpl⟩, hfl, _⟩ := hnd
    refine ⟨hl.1, ?_⟩
    rw [Function.update_of_ne hpf, Function.update_self]
    refine hl.2.2.congr fun a ha => ?_
    rw [Function.update_of_ne (by rintro rfl; exact hfl ha),
      Function.update_of_ne (by rintro rfl; exact hpl ha)]
  | cons a l₁ ih =>
    simp only [List.cons_append, linked_cons] at hl ⊢
    obtain ⟨ha, hnd'⟩ := List.nodup_cons.mp hnd
    refine ⟨hl.1, ?_⟩
    rw [Function.update_of_ne (by rintro rfl; simp at ha),
      Function.update_of_ne (by rintro rfl; simp at ha)]
    exact ih hl.2 hnd'

end Update

end Intrusive
