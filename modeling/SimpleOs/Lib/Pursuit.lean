import Mathlib.Data.Fintype.Card
import Mathlib.Data.Fintype.List
import Mathlib.Logic.Relation
import Mathlib.Tactic.Common

/-!
# Following a successor function

A partial successor function `f : α → Option α` is a graph in which every node
has at most one outgoing edge. `chase f target` follows the edges from a node
until it meets `target` or a node without a successor, with no visited set and
no counter; `fuel` bounds the number of edges looked at. On a finite acyclic
graph as much fuel as there are nodes is always enough (`chase_ne_none`), and
the answer says exactly whether the edges lead to `target` (`chase_eq_true`).
-/

namespace Pursuit

variable {α : Type*}

/-- The edge relation of a successor function. -/
def Edge (f : α → Option α) (a b : α) : Prop := f a = some b

/-- Following edges from `a` leads back to no node already passed. -/
def Acyclic (f : α → Option α) : Prop := ∀ a, ¬ Relation.TransGen (Edge f) a a

/-- The nodes of a walk in an acyclic graph are distinct. -/
theorem nodup_of_isChain {f : α → Option α} (hf : Acyclic f) {l : List α}
    (h : List.IsChain (Edge f) l) : l.Nodup := by
  have h' : List.IsChain (Relation.TransGen (Edge f)) l :=
    h.imp fun _ _ hab => Relation.TransGen.single hab
  refine h'.pairwise.imp fun {a b} hab => ?_
  rintro rfl
  exact hf a hab

section Chase

variable [DecidableEq α]

/-- Follow `f` until `target` or a node without successor; `none` when the
    fuel runs out first. -/
def chase (f : α → Option α) (target : α) : ℕ → α → Option Bool
  | 0, _ => none
  | fuel + 1, a =>
    match f a with
    | none => some false
    | some b => if b = target then some true else chase f target fuel b

/-- A pursuit that runs out of fuel has walked that many edges. -/
theorem exists_chain_of_chase_none {f : α → Option α} {target : α} {fuel : ℕ} {a : α}
    (h : chase f target fuel a = none) :
    ∃ l : List α, l.length = fuel ∧ List.IsChain (Edge f) (a :: l) := by
  induction fuel generalizing a with
  | zero => exact ⟨[], rfl, by simp⟩
  | succ fuel ih =>
    rw [chase] at h
    cases hfa : f a with
    | none => simp [hfa] at h
    | some b =>
      simp only [hfa] at h
      split_ifs at h
      obtain ⟨l, hlen, hch⟩ := ih h
      refine ⟨b :: l, by simp [hlen], ?_⟩
      rw [List.isChain_cons_cons]
      exact ⟨hfa, hch⟩

/-- The pursuit ends. -/
theorem chase_ne_none [Fintype α] {f : α → Option α} (hf : Acyclic f) (target a : α) :
    chase f target (Fintype.card α) a ≠ none := by
  intro h
  obtain ⟨l, hlen, hch⟩ := exists_chain_of_chase_none h
  have hcard := (nodup_of_isChain hf hch).length_le_card
  rw [List.length_cons, hlen] at hcard
  omega

/-- The rule for a pursuit that meets its target: on the last edge, and on the edges before. -/
theorem chase_induction {f : α → Option α} {target : α} {P : ℕ → α → Prop}
    (hit : ∀ fuel a, f a = some target → P (fuel + 1) a)
    (next : ∀ fuel a b, f a = some b → b ≠ target → P fuel b → P (fuel + 1) a) {fuel : ℕ} {a : α}
    (h : chase f target fuel a = some true) : P fuel a := by
  induction fuel generalizing a with
  | zero => simp [chase] at h
  | succ fuel ih =>
    rw [chase] at h
    cases hfa : f a with
    | none => simp [hfa] at h
    | some b =>
      simp only [hfa] at h
      split_ifs at h with hb
      · exact hit fuel a (hb ▸ hfa)
      · exact next fuel a b hfa hb (ih h)

theorem chase_true {f : α → Option α} {target : α} {fuel : ℕ} {a : α}
    (h : chase f target fuel a = some true) : Relation.TransGen (Edge f) a target := by
  refine chase_induction (P := fun _ a => Relation.TransGen (Edge f) a target) ?_ ?_ h
  · intro _ a hedge
    exact Relation.TransGen.single hedge
  · intro _ a b hedge _ hrest
    exact Relation.TransGen.head hedge hrest

theorem chase_false {f : α → Option α} {target : α} {fuel : ℕ} {a : α}
    (h : chase f target fuel a = some false) : ¬ Relation.TransGen (Edge f) a target := by
  induction fuel generalizing a with
  | zero => simp [chase] at h
  | succ fuel ih =>
    intro ht
    obtain ⟨b, hab, hbt⟩ := Relation.TransGen.head'_iff.mp ht
    have hfa : f a = some b := hab
    rw [chase, hfa] at h
    simp only at h
    split_ifs at h with hb
    · simp at h
    · rcases Relation.reflTransGen_iff_eq_or_transGen.mp hbt with h1 | h1
      · exact hb h1.symm
      · exact ih h h1

/-- On a finite acyclic graph the pursuit decides whether the edges lead from
    `a` to `target`. -/
theorem chase_eq_true [Fintype α] {f : α → Option α} (hf : Acyclic f) (target a : α) :
    chase f target (Fintype.card α) a = some true ↔ Relation.TransGen (Edge f) a target := by
  refine ⟨chase_true, fun h => ?_⟩
  cases hc : chase f target (Fintype.card α) a with
  | none => exact absurd hc (chase_ne_none hf target a)
  | some r =>
    cases r with
    | true => rfl
    | false => exact absurd h (chase_false hc)

end Chase

/-- Adding an edge `a → b` to a node `a` without successor keeps the graph
    acyclic, unless the edges already lead from `b` to `a`. -/
theorem Acyclic.update [DecidableEq α] {f : α → Option α} (hf : Acyclic f) {a b : α}
    (ha : f a = none) (hab : a ≠ b) (h : ¬ Relation.TransGen (Edge f) b a) :
    Acyclic (Function.update f a (some b)) := by
  -- a walk of the new graph either avoids the new edge or passes through `a`
  have key : ∀ x y, Relation.TransGen (Edge (Function.update f a (some b))) x y →
      Relation.TransGen (Edge f) x y ∨
        (Relation.ReflTransGen (Edge f) x a ∧ Relation.ReflTransGen (Edge f) b y) := by
    intro x y hxy
    induction hxy with
    | @single y hxy =>
      by_cases hx : x = a
      · subst hx
        rw [Edge, Function.update_self] at hxy
        obtain rfl := Option.some.inj hxy
        exact Or.inr ⟨.refl, .refl⟩
      · rw [Edge, Function.update_of_ne hx] at hxy
        exact Or.inl (.single hxy)
    | @tail y z _ hyz ih =>
      by_cases hy : y = a
      · subst hy
        rw [Edge, Function.update_self] at hyz
        obtain rfl := Option.some.inj hyz
        rcases ih with ih | ⟨ih1, _⟩
        · exact Or.inr ⟨ih.to_reflTransGen, .refl⟩
        · exact Or.inr ⟨ih1, .refl⟩
      · rw [Edge, Function.update_of_ne hy] at hyz
        rcases ih with ih | ⟨ih1, ih2⟩
        · exact Or.inl (.tail ih hyz)
        · exact Or.inr ⟨ih1, .tail ih2 hyz⟩
  intro x hx
  rcases key x x hx with h1 | ⟨h1, h2⟩
  · exact hf x h1
  · rcases Relation.reflTransGen_iff_eq_or_transGen.mp (h2.trans h1) with h3 | h3
    · exact hab h3
    · exact h h3

/-- Removing edges keeps the graph acyclic. -/
theorem Acyclic.mono {f g : α → Option α} (hf : Acyclic f)
    (hg : ∀ a b, g a = some b → f a = some b) : Acyclic g :=
  fun a h => hf a (Relation.TransGen.mono (fun x y => hg x y) a a h)

end Pursuit
