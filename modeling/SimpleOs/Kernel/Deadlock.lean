import SimpleOs.Kernel.Queue
import SimpleOs.Lib.Pursuit

/-!
# `deadlock` and the wait-for graph

A process that is blocked in a send has one outgoing edge, to the process it
sends to. `deadlock(src, dest)` follows these edges from `dest` and looks for
`src`; its loop is the pursuit of `Pursuit.chase` (`deadlockLoop_eq`), so on an
acyclic graph it ends and answers exactly (`deadlock_returns`,
`deadlock_eq_true`). That the graph is acyclic is in turn what the check
maintains: `Acyclic.enqueue` adds an edge only when `deadlock` has answered 0.
-/

namespace SimpleOs

open ByteMem Pursuit

/-- The process that `s` waits for in a send. -/
def waitsFor (t : ProcTable) (s : Pid) : Option Pid :=
  if Sending (t s) then (slot (t s).pSendto).toOption else none

theorem waitsFor_eq_some {t : ProcTable} {s d : Pid} : waitsFor t s = some d ↔ SendsTo t s d := by
  unfold waitsFor SendsTo
  split_ifs with h
  · simp only [h, true_and]
    rw [← slot_eq_ok]
    cases slot (t s).pSendto with
    | error e => simp [Except.toOption]
    | ok p => simp [Except.toOption]
  · simp [h]

theorem edge_waitsFor {t : ProcTable} : Edge (waitsFor t) = SendsTo t := by
  funext s d
  exact propext waitsFor_eq_some

/-- Every process with SENDING set names a slot. -/
def TargetsValid (t : ProcTable) : Prop := ∀ s, Sending (t s) → ∃ d, (t s).pSendto = proc2pid d

/-! ## The loops -/

/-- The loop of `deadlock` is a pursuit of `src`; when it finds it, the cycle
    is printed from `dest`. -/
theorem deadlockLoop_eq {t : ProcTable} (ht : TargetsValid t) (src : Pid) (dest : ℤ) :
    ∀ fuel p, deadlockLoop t (proc2pid src) dest fuel p =
      match chase (waitsFor t) src fuel p with
      | none => .error .spin
      | some false => .ok false
      | some true => (do let p ← slot dest; deadlockPrint t (proc2pid src) 35 p; .ok true) := by
  intro fuel
  induction fuel with
  | zero => intro p; rfl
  | succ fuel ih =>
    intro p
    rw [deadlockLoop, chase]
    by_cases hs : Sending (t p)
    · obtain ⟨d, hd⟩ := ht p hs
      have hw : waitsFor t p = some d := waitsFor_eq_some.mpr ⟨hs, hd⟩
      rw [if_pos (by exact hs), hw, hd]
      simp only [proc2pid_inj, slot_proc2pid]
      by_cases hds : d = src
      · rw [if_pos hds, if_pos hds]
      · rw [if_neg hds, if_neg hds]
        exact ih d
    · have hw : waitsFor t p = none := if_neg hs
      rw [if_neg (by exact hs), hw]

/-- Printing ends at `src` when the edges lead there. -/
theorem deadlockPrint_ok {t : ProcTable} (hmsg : ∀ p, Sending (t p) → (t p).msg ≠ 0) (src : Pid) :
    ∀ fuel p, chase (waitsFor t) src fuel p = some true →
      deadlockPrint t (proc2pid src) fuel p = .ok () := by
  intro fuel p h
  refine chase_induction (P := fun fuel p => deadlockPrint t (proc2pid src) fuel p = .ok ()) ?_ ?_ h
  · intro fuel p hw
    obtain ⟨hs, hq⟩ := waitsFor_eq_some.mp hw
    rw [deadlockPrint, assert_bind (hmsg p hs), hq, slot_proc2pid]
    exact if_pos rfl
  · intro fuel p q hw hne hrest
    obtain ⟨hs, hq⟩ := waitsFor_eq_some.mp hw
    rw [deadlockPrint, assert_bind (hmsg p hs), hq, slot_proc2pid]
    simp only [proc2pid_inj, bind, Except.bind, if_neg hne]
    exact hrest

section Exact

variable {t : ProcTable} (ht : TargetsValid t) (hmsg : ∀ p, Sending (t p) → (t p).msg ≠ 0)
  (hacyc : Acyclic (waitsFor t))
include ht hmsg hacyc

/-- The loop ends and no assertion in it fails. -/
theorem deadlock_returns (src dest : Pid) :
    ∃ b, deadlock t (proc2pid src) (proc2pid dest) = .ok b ∧
      chase (waitsFor t) src 35 dest = some b := by
  have hne : chase (waitsFor t) src 35 dest ≠ none := by
    have := chase_ne_none hacyc src dest
    rwa [Fintype.card_fin] at this
  obtain ⟨b, hb⟩ := Option.ne_none_iff_exists'.mp hne
  refine ⟨b, ?_, hb⟩
  simp only [deadlock, slot_proc2pid, bind, Except.bind]
  rw [deadlockLoop_eq ht, hb]
  cases b with
  | false => rfl
  | true =>
    simp only [slot_proc2pid, bind, Except.bind]
    rw [deadlockPrint_ok hmsg src 35 dest hb]

/-- `deadlock` returns 1 exactly when the sends lead from `dest` to `src`. -/
theorem deadlock_eq_true (src dest : Pid) :
    deadlock t (proc2pid src) (proc2pid dest) = .ok true ↔
      Relation.TransGen (SendsTo t) dest src := by
  obtain ⟨b, hb, hc⟩ := deadlock_returns ht hmsg hacyc src dest
  have hexact := chase_eq_true hacyc src dest
  rw [Fintype.card_fin, hc, edge_waitsFor] at hexact
  rw [hb, ← hexact]
  simp

end Exact

/-- When `deadlock` answers 0, the sends do not lead from `dest` to `src`. -/
theorem not_transGen_of_deadlock_false {t : ProcTable} (ht : TargetsValid t) {src dest : Pid}
    (h : deadlock t (proc2pid src) (proc2pid dest) = .ok false) :
    ¬ Relation.TransGen (SendsTo t) dest src := by
  simp only [deadlock, slot_proc2pid, bind, Except.bind] at h
  rw [deadlockLoop_eq ht] at h
  rw [← edge_waitsFor]
  cases hc : chase (waitsFor t) src 35 dest with
  | none => simp [hc] at h
  | some b =>
    cases b with
    | false => exact chase_false hc
    | true =>
      simp only [hc, slot_proc2pid, bind_eq_ok] at h
      obtain ⟨_, _, _, _, h⟩ := h
      simp at h

/-! ## The graph stays acyclic -/

theorem waitsFor_enqueue (t : ProcTable) (s d : Pid) (m : Addr) (tail : Option Pid) :
    waitsFor (enqueue t s d m tail) = Function.update (waitsFor t) s (some d) := by
  funext x
  by_cases hx : x = s
  · subst hx
    rw [Function.update_self, waitsFor_eq_some, sendsTo_enqueue]
    exact .inl ⟨rfl, rfl⟩
  · rw [Function.update_of_ne hx]
    apply Option.ext
    intro b
    rw [waitsFor_eq_some, waitsFor_eq_some, sendsTo_enqueue]
    simp [hx]

theorem acyclic_enqueue {t : ProcTable} {s d : Pid} (m : Addr) (tail : Option Pid)
    (hacyc : Acyclic (waitsFor t)) (hs : ¬ Sending (t s)) (hsd : s ≠ d)
    (h : ¬ Relation.TransGen (SendsTo t) d s) : Acyclic (waitsFor (enqueue t s d m tail)) := by
  rw [waitsFor_enqueue]
  refine hacyc.update (if_neg hs) hsd ?_
  rwa [edge_waitsFor]

theorem acyclic_dequeue {t : ProcTable} (d f : Pid) (prev : Option Pid)
    (hacyc : Acyclic (waitsFor t)) : Acyclic (waitsFor (dequeue t d f prev)) := by
  refine hacyc.mono fun a b h => ?_
  rw [waitsFor_eq_some] at *
  exact (sendsTo_dequeue.mp h).2

theorem SameQueues.acyclic {t t' : ProcTable} (h : SameQueues t t')
    (hacyc : Acyclic (waitsFor t)) : Acyclic (waitsFor t') := by
  refine hacyc.mono fun a b hab => ?_
  rw [waitsFor_eq_some] at *
  exact h.sendsTo.mp hab

theorem SendOutcome.acyclic {k k' : Machine} {s d : Pid} {m : Addr}
    (h : SendOutcome k s d m k') (hacyc : Acyclic (waitsFor k.procTable))
    (ht : TargetsValid k.procTable) (hs : ¬ Sending (k.procTable s)) (hsd : s ≠ d)
    (hdead : deadlock k.procTable (proc2pid s) (proc2pid d) = .ok false) :
    Acyclic (waitsFor k'.procTable) := by
  cases h with
  | deliver => exact (sameQueues_deliver _ d).acyclic hacyc
  | enqueue _ _ tail _ r =>
    exact acyclic_enqueue m tail hacyc hs hsd (not_transGen_of_deadlock_false ht hdead)

theorem ReceiveOutcome.acyclic {k k' : Machine} {w : Pid} {src : ℤ} {m : Addr}
    (h : ReceiveOutcome k w src m k') (hacyc : Acyclic (waitsFor k.procTable)) :
    Acyclic (waitsFor k'.procTable) := by
  cases h with
  | interrupt => exact (sameQueues_clearInt _ w).acyclic hacyc
  | take f prev => exact acyclic_dequeue w f prev hacyc
  | wait => exact (sameQueues_park _ w _ _).acyclic hacyc

theorem Quiescent.acyclic {t : ProcTable} (h : Quiescent t) : Acyclic (waitsFor t) := by
  intro a ha
  obtain ⟨b, hab, _⟩ := Relation.TransGen.head'_iff.mp ha
  rw [Edge, waitsFor_eq_some] at hab
  obtain ⟨hs, -⟩ := hab
  rcases (h.idle a).flags with hf | hf <;> simp [Sending, hf] at hs

end SimpleOs
