import Mathlib.Data.Nat.Find
import Mathlib.Tactic.Common

/-!
# Loops that are left at the first hit

`for (i = a; i < a + n; ++i) { … goto out; … }`: the body changes a state and says whether
the loop is left.

* `scan_stop`: a loop whose body passes every index before `k` and stops at `k` does what the
  body does at `k`.
* `scan_pass`: a loop whose body passes every index keeps its invariant.
* `exists_first`: before a hit there is a first one.
* `poll_iff`: a loop without a last index ends exactly at the first hit.
-/

namespace Scan

variable {σ : Type*} {body : ℕ → σ → Bool × σ} {Inv : ℕ → σ → Prop} {n i k : ℕ} {s : σ}

/-- `n` rounds from the index `i` on; `true` when the loop is left. -/
def scan (body : ℕ → σ → Bool × σ) : ℕ → ℕ → σ → Bool × σ
  | 0, _, s => (false, s)
  | n + 1, i, s =>
    let r := body i s
    if r.1 = true then r else scan body n (i + 1) r.2

theorem scan_succ_stop (h : (body i s).1 = true) : scan body (n + 1) i s = body i s := if_pos h

theorem scan_succ_pass (h : (body i s).1 = false) :
    scan body (n + 1) i s = scan body n (i + 1) (body i s).2 := by
  refine if_neg ?_
  rw [h]
  exact Bool.false_ne_true

/-- The body passes the indices from `i` to `k` and keeps the invariant. -/
def Passes (body : ℕ → σ → Bool × σ) (Inv : ℕ → σ → Prop) (i k : ℕ) : Prop :=
  ∀ m s, i ≤ m → m < k → Inv m s → (body m s).1 = false ∧ Inv (m + 1) (body m s).2

theorem Passes.succ (h : Passes body Inv i k) : Passes body Inv (i + 1) k :=
  fun m s hm hk hs => h m s (by omega) hk hs

theorem scan_pass (h : Passes body Inv i (i + n)) (hs : Inv i s) :
    (scan body n i s).1 = false ∧ Inv (i + n) (scan body n i s).2 := by
  induction n generalizing i s with
  | zero => exact ⟨rfl, hs⟩
  | succ n ih =>
    obtain ⟨hpass, hinv⟩ := h i s (Nat.le_refl i) (by omega) hs
    have hend : i + 1 + n = i + (n + 1) := by omega
    have hrest : Passes body Inv (i + 1) (i + 1 + n) := by
      rw [hend]
      exact h.succ
    rw [scan_succ_pass hpass, ← hend]
    exact ih hrest hinv

theorem scan_stop (h : Passes body Inv i k) (hstop : ∀ s, Inv k s → (body k s).1 = true)
    (hik : i ≤ k) (hk : k < i + n) (hs : Inv i s) :
    ∃ s', Inv k s' ∧ scan body n i s = body k s' := by
  induction n generalizing i s with
  | zero => omega
  | succ n ih =>
    rcases Nat.eq_or_lt_of_le hik with rfl | hlt
    · exact ⟨s, hs, scan_succ_stop (hstop s hs)⟩
    · obtain ⟨hpass, hinv⟩ := h i s (Nat.le_refl i) hlt hs
      rw [scan_succ_pass hpass]
      exact ih h.succ hlt (by omega) hinv

theorem exists_first {p : ℕ → Prop} (hk : p k) : ∃ m ≤ k, p m ∧ ∀ l < m, ¬ p l := by
  classical
  have hex : ∃ m, p m := ⟨k, hk⟩
  exact ⟨Nat.find hex, Nat.find_min' hex hk, Nat.find_spec hex, fun _ hl => Nat.find_min hex hl⟩

/-- `while (1) { if (p(i)) break; ++i; }` from the index `i` on, for at most `fuel` tests. -/
def poll (p : ℕ → Prop) [DecidablePred p] : ℕ → ℕ → Option ℕ
  | 0, _ => none
  | fuel + 1, i => if p i then some i else poll p fuel (i + 1)

section Poll

variable {p : ℕ → Prop} [DecidablePred p] {fuel : ℕ}

theorem poll_hit (hik : i ≤ k) (hpass : ∀ j, i ≤ j → j < k → ¬ p j) (hk : p k)
    (hfuel : k < i + fuel) : poll p fuel i = some k := by
  induction fuel generalizing i with
  | zero => omega
  | succ fuel ih =>
    rw [poll]
    rcases Nat.eq_or_lt_of_le hik with rfl | hlt
    · exact if_pos hk
    · rw [if_neg (hpass i (Nat.le_refl i) hlt)]
      exact ih hlt (fun j hj => hpass j (by omega)) (by omega)

theorem poll_first (h : poll p fuel i = some k) :
    i ≤ k ∧ (∀ j, i ≤ j → j < k → ¬ p j) ∧ p k := by
  induction fuel generalizing i with
  | zero => nomatch h
  | succ fuel ih =>
    rw [poll] at h
    split_ifs at h with hi
    · obtain rfl := Option.some.inj h
      exact ⟨Nat.le_refl i, fun j hj hlt => by omega, hi⟩
    · obtain ⟨hle, hpass, hk⟩ := ih h
      refine ⟨by omega, fun j hj hlt => ?_, hk⟩
      rcases Nat.eq_or_lt_of_le hj with rfl | hlt'
      · exact hi
      · exact hpass j hlt' hlt

theorem poll_iff :
    (∃ fuel, poll p fuel i = some k) ↔ i ≤ k ∧ (∀ j, i ≤ j → j < k → ¬ p j) ∧ p k := by
  constructor
  · rintro ⟨fuel, h⟩
    exact poll_first h
  · rintro ⟨hik, hpass, hk⟩
    exact ⟨k + 1, poll_hit hik hpass hk (by omega)⟩

end Poll

end Scan
