import Mathlib.Data.List.Basic
import Mathlib.Tactic.Common

/-!
# Computations that leave a log

`Logged ε φ α` is a computation with a result of type `α` or an error of type `φ`, and the
list of what it has done, in order. The log is kept when the computation fails, so it says
what has been done up to there.

* `bind_ok`, `bind_error`: what a sequence of two computations does.
* `bind_result`, `mem_log_bind`: the result and the log of a sequence.
* `Does.bind`: a computation returns, and all that it does meets a condition.
-/

/-- A computation with a log. -/
structure Logged (ε φ α : Type) where
  log : List ε
  result : Except φ α

namespace Logged

variable {ε φ α β : Type}

/-- A computation that does nothing but enter `e` into the log. -/
def emit (e : ε) : Logged ε φ Unit := ⟨[e], .ok ()⟩

/-- A computation without an effect. -/
def lift (r : Except φ α) : Logged ε φ α := ⟨[], r⟩

instance : Monad (Logged ε φ) where
  pure a := ⟨[], .ok a⟩
  bind t f :=
    match t.result with
    | .ok a => ⟨t.log ++ (f a).log, (f a).result⟩
    | .error e => ⟨t.log, .error e⟩

@[simp] theorem pure_log (a : α) : (pure a : Logged ε φ α).log = [] := rfl

@[simp] theorem pure_result (a : α) : (pure a : Logged ε φ α).result = .ok a := rfl

theorem bind_ok {t : Logged ε φ α} {a : α} (h : t.result = .ok a) (f : α → Logged ε φ β) :
    t >>= f = ⟨t.log ++ (f a).log, (f a).result⟩ := by
  change (match t.result with
    | .ok a => (⟨t.log ++ (f a).log, (f a).result⟩ : Logged ε φ β)
    | .error e => ⟨t.log, .error e⟩) = _
  rw [h]

theorem bind_error {t : Logged ε φ α} {e : φ} (h : t.result = .error e) (f : α → Logged ε φ β) :
    t >>= f = ⟨t.log, .error e⟩ := by
  change (match t.result with
    | .ok a => (⟨t.log ++ (f a).log, (f a).result⟩ : Logged ε φ β)
    | .error e => ⟨t.log, .error e⟩) = _
  rw [h]

theorem emit_bind (e : ε) (f : Unit → Logged ε φ β) :
    emit e >>= f = ⟨e :: (f ()).log, (f ()).result⟩ := rfl

/-- What an entry and all that follows it meet. -/
theorem forall_log_emit {P : ε → Prop} {e : ε} {f : Unit → Logged ε φ β} (he : P e)
    (hf : ∀ e' ∈ (f ()).log, P e') : ∀ e' ∈ (emit e >>= f).log, P e' :=
  List.forall_mem_cons.mpr ⟨he, hf⟩

theorem lift_ok_bind {r : Except φ α} {a : α} (h : r = .ok a) (f : α → Logged ε φ β) :
    lift r >>= f = f a := by
  rw [h]
  rfl

theorem bind_result {t : Logged ε φ α} {f : α → Logged ε φ β} {b : β} :
    (t >>= f).result = .ok b ↔ ∃ a, t.result = .ok a ∧ (f a).result = .ok b := by
  cases h : t.result with
  | ok a =>
    rw [bind_ok h]
    constructor
    · exact fun hb => ⟨a, rfl, hb⟩
    · rintro ⟨a', ha, hb⟩
      rw [Except.ok.inj ha]
      exact hb
  | error e =>
    rw [bind_error h]
    simp

theorem mem_log_bind {t : Logged ε φ α} {f : α → Logged ε φ β} {e : ε} :
    e ∈ (t >>= f).log ↔ e ∈ t.log ∨ ∃ a, t.result = .ok a ∧ e ∈ (f a).log := by
  cases h : t.result with
  | ok a =>
    rw [bind_ok h, List.mem_append]
    constructor
    · rintro (he | he)
      · exact .inl he
      · exact .inr ⟨a, rfl, he⟩
    · rintro (he | ⟨a', ha, he⟩)
      · exact .inl he
      · rw [Except.ok.inj ha]
        exact .inr he
  | error e' =>
    rw [bind_error h]
    simp

/-- A function of the result. -/
theorem bind_pure_eq (t : Logged ε φ α) (g : α → β) :
    (t >>= fun a => pure (g a)) = ⟨t.log, t.result.map g⟩ := by
  cases h : t.result with
  | ok a =>
    rw [bind_ok h, pure_log, List.append_nil]
    rfl
  | error e =>
    rw [bind_error h]
    rfl

/-! ## Computations that return -/

/-- The computation returns `a`, and all entries of its log meet `P`. -/
structure Does (P : ε → Prop) (t : Logged ε φ α) (a : α) : Prop where
  result : t.result = .ok a
  log : ∀ e ∈ t.log, P e

section Does

variable {P : ε → Prop} {t : Logged ε φ α} {f : α → Logged ε φ β} {a : α} {b : β}

theorem Does.pure : Does P (pure a : Logged ε φ α) a := ⟨rfl, fun _ h => absurd h List.not_mem_nil⟩

theorem Does.lift {r : Except φ α} (h : r = .ok a) : Does P (lift r) a :=
  ⟨h, fun _ h => absurd h List.not_mem_nil⟩

theorem Does.emit {e : ε} (h : P e) : Does P (emit e : Logged ε φ Unit) () :=
  ⟨rfl, fun _ he => List.mem_singleton.mp he ▸ h⟩

theorem Does.bind (ht : Does P t a) (hf : Does P (f a) b) : Does P (t >>= f) b := by
  rw [bind_ok ht.result f]
  refine ⟨hf.result, fun e he => ?_⟩
  rcases List.mem_append.mp he with he | he
  · exact ht.log e he
  · exact hf.log e he

end Does

end Logged
