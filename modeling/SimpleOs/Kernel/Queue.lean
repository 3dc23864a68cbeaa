import Mathlib.Data.Fintype.Card
import SimpleOs.Kernel.Outcome
import SimpleOs.Lib.Linked

/-!
# The sender queues

The processes blocked in a send to `d` are threaded through `proc_table`: the
list starts at `d.q_sending` and continues along `next_sending`. `QueueInv`
says that these lists and the redundant facts in `p_flags` and `p_sendto`
agree. It tests the SENDING bit only and says nothing about the other bits of
`p_flags`, so it can also be asked of tables in which the memory manager has
set WAITING or HANGING.

* `lastSending_linked`, `searchSending_linked`: the two loops over a queue.
* `QueueInv.enqueue`, `QueueInv.dequeue`: appending and removing.
* `SendOutcome.queueInv`, `ReceiveOutcome.queueInv`: one call.
-/

namespace SimpleOs

open ByteMem Intrusive

/-- The links of all queues. -/
def links (t : ProcTable) : Pid → Option Pid := fun p => (t p).nextSending

/-- `l` is the queue of `d`: the chain from `q_sending`, without repetition,
    whose members are exactly the processes blocked in a send to `d`. -/
structure IsQueue (t : ProcTable) (d : Pid) (l : List Pid) : Prop where
  linked : Linked (links t) (t d).qSending l
  nodup : l.Nodup
  mem_iff : ∀ s, s ∈ l ↔ SendsTo t s d

/-- The queues and the fields of their members agree. -/
structure QueueInv (t : ProcTable) : Prop where
  queue : ∀ d, ∃ l, IsQueue t d l
  off : ∀ s, ¬ Sending (t s) → (t s).nextSending = none
  target : ∀ s, Sending (t s) → ∃ d, (t s).pSendto = proc2pid d

theorem SendsTo.unique {t : ProcTable} {s d d' : Pid} (h : SendsTo t s d) (h' : SendsTo t s d') :
    d = d' := proc2pid_inj.mp (h.2.symm.trans h'.2)

theorem IsQueue.unique {t : ProcTable} {d : Pid} {l l' : List Pid} (h : IsQueue t d l)
    (h' : IsQueue t d l') : l = l' := h.linked.unique h'.linked

theorem nodup_length_le {l : List Pid} (h : l.Nodup) : l.length ≤ 35 := by
  have := h.length_le_card
  rwa [Fintype.card_fin] at this

theorem IsQueue.length_le {t : ProcTable} {d : Pid} {l : List Pid} (h : IsQueue t d l) :
    l.length ≤ 35 := nodup_length_le h.nodup

theorem IsQueue.head_eq_none {t : ProcTable} {d : Pid} {l : List Pid} (h : IsQueue t d l) :
    (t d).qSending = none ↔ l = [] := by
  have hl := h.linked
  cases l with
  | nil => exact ⟨fun _ => rfl, fun _ => hl⟩
  | cons a l => rw [hl.1]; simp

theorem IsQueue.head_eq_some {t : ProcTable} {d a : Pid} {l : List Pid} (h : IsQueue t d l)
    (ha : (t d).qSending = some a) : ∃ l', l = a :: l' := by
  have hl := h.linked
  cases l with
  | nil => rw [linked_nil, ha] at hl; cases hl
  | cons b l =>
    rw [linked_cons, ha] at hl
    cases hl.1
    exact ⟨l, rfl⟩

/-! ## The loops over a queue -/

/-- The append loop ends at the last element. -/
theorem lastSending_linked {t : ProcTable} {l : List Pid} :
    ∀ {fuel : ℕ} {p : Pid}, Linked (links t) (some p) l → l.length ≤ fuel →
      ∃ q, lastSending t fuel p = .ok q ∧ l.getLast? = some q := by
  induction l with
  | nil => intro fuel p h; cases h
  | cons a l ih =>
    intro fuel p h hfuel
    obtain ⟨h1, h2⟩ := h
    obtain rfl := Option.some.inj h1
    cases fuel with
    | zero => simp at hfuel
    | succ fuel =>
      rw [lastSending]
      cases hn : (t p).nextSending with
      | none =>
        have hl : l = [] := by
          cases l with
          | nil => rfl
          | cons b l => rw [links, hn] at h2; cases h2.1
        subst hl
        exact ⟨p, rfl, rfl⟩
      | some b =>
        rw [links, hn] at h2
        obtain ⟨q, hq, hlast⟩ := ih h2 (by simpa using hfuel)
        refine ⟨q, hq, ?_⟩
        cases l with
        | nil => simp at hlast
        | cons c l => simpa using hlast

/-- The search loop stops at `f` and returns the element before it. -/
theorem searchSending_linked {t : ProcTable} {f : Pid} (hs : Sending (t f)) {l₁ l₂ : List Pid} :
    ∀ (fuel : ℕ) (prev cur : Option Pid), Linked (links t) cur (l₁ ++ f :: l₂) → f ∉ l₁ →
      l₁.length < fuel →
      searchSending t (proc2pid f) f fuel prev cur = .ok (l₁.getLast?.or prev) := by
  induction l₁ with
  | nil =>
    intro fuel prev cur h _ hfuel
    obtain ⟨n, rfl⟩ := Nat.exists_eq_succ_of_ne_zero (by omega : fuel ≠ 0)
    obtain ⟨rfl, _⟩ := h
    rw [searchSending, assert_bind (by exact hs), if_pos rfl]
    rfl
  | cons a l₁ ih =>
    intro fuel prev cur h hf hfuel
    simp only [List.mem_cons, not_or, List.length_cons] at hf hfuel
    obtain ⟨n, rfl⟩ := Nat.exists_eq_succ_of_ne_zero (by omega : fuel ≠ 0)
    obtain ⟨rfl, h2⟩ := h
    have hne : proc2pid a ≠ proc2pid f := fun hc => hf.1 (proc2pid_inj.mp hc).symm
    rw [searchSending, assert_bind (by exact hs), if_neg hne]
    refine (ih n (some a) _ h2 hf.2 (by omega)).trans ?_
    cases l₁ with
    | nil => rfl
    | cons b l => rw [List.getLast?_cons_cons, List.getLast?_eq_some_getLast (by simp)]; rfl

/-- The chain need not be in order for the loop to find its last element. -/
theorem findsTail_iff_of_linked {t : ProcTable} {d : Pid} {l : List Pid}
    (h : Linked (links t) (t d).qSending l) (hlen : l.length ≤ 35) {tail : Option Pid} :
    FindsTail t d tail ↔ tail = l.getLast? := by
  unfold FindsTail
  cases hq : (t d).qSending with
  | none =>
    have hnil : Linked (links t) none [] := rfl
    rw [hq] at h
    obtain rfl := h.unique hnil
    rfl
  | some p =>
    obtain ⟨q, hlast, hl⟩ := lastSending_linked (hq ▸ h) hlen
    simp only [hlast, Except.ok.injEq, exists_eq_left', hl]

theorem IsQueue.findsTail_iff {t : ProcTable} {d : Pid} {l : List Pid} (h : IsQueue t d l)
    {tail : Option Pid} : FindsTail t d tail ↔ tail = l.getLast? :=
  findsTail_iff_of_linked h.linked h.length_le

/-- The search finds a sender that the chain leads to. -/
theorem findsPrev_of_linked {t : ProcTable} {d f : Pid} {l₁ l₂ : List Pid} (hs : Sending (t f))
    (h : Linked (links t) (t d).qSending (l₁ ++ f :: l₂)) (hl₁ : f ∉ l₁) (hlen : l₁.length ≤ 35) :
    FindsPrev t d f l₁.getLast? := by
  cases l₁ with
  | nil => exact .inl ⟨rfl, h.1⟩
  | cons a l₁ =>
    refine .inr ⟨by simp, fun hc => hl₁ ?_, ?_⟩
    · obtain rfl : a = f := Option.some.inj (h.1.symm.trans hc)
      exact List.mem_cons_self
    · rw [searchSending_linked hs 36 none _ h hl₁ (by omega), Option.or_none]

/-- A member of the queue, with the element the search leaves in `prev`. -/
theorem IsQueue.findsPrev {t : ProcTable} {d f : Pid} {l : List Pid} (h : IsQueue t d l)
    {prev : Option Pid} (hf : SendsTo t f d) (hprev : FindsPrev t d f prev) :
    ∃ l₁ l₂, l = l₁ ++ f :: l₂ ∧ f ∉ l₁ ∧ prev = l₁.getLast? := by
  obtain ⟨l₁, l₂, rfl, hl₁⟩ := List.eq_append_cons_of_mem ((h.mem_iff f).mpr hf)
  refine ⟨l₁, l₂, rfl, hl₁, ?_⟩
  rcases hprev with ⟨rfl, hhead⟩ | ⟨_, _, hsearch⟩
  · obtain ⟨l', hl'⟩ := h.head_eq_some hhead
    cases l₁ with
    | nil => rfl
    | cons a l₁ =>
      simp only [List.cons_append, List.cons.injEq] at hl'
      exact absurd (hl'.1 ▸ List.mem_cons_self) hl₁
  · have hlen : l₁.length < 36 := by
      have := h.length_le
      simp only [List.length_append, List.length_cons] at this
      omega
    rw [searchSending_linked hf.1 36 none _ h.linked hl₁ hlen] at hsearch
    simpa using hsearch.symm

/-! ## Appending -/

theorem sendsTo_enqueue {t : ProcTable} {s d : Pid} {m : Addr} {tail : Option Pid} {x d' : Pid} :
    SendsTo (enqueue t s d m tail) x d' ↔ (x = s ∧ d' = d) ∨ (x ≠ s ∧ SendsTo t x d') := by
  by_cases hx : x = s
  · subst hx
    simp only [SendsTo, sending_iff, enqueue, if_true, proc2pid_inj, true_and, ne_eq, not_true,
      false_and, or_false]
    exact ⟨fun h => h.2.symm, fun h => ⟨by simp, h.symm⟩⟩
  · simp [SendsTo, Sending, enqueue, hx]

/-- The new member is the last of the chain. -/
theorem linked_enqueue {t : ProcTable} {s d : Pid} {l : List Pid} (m : Addr)
    (h : Linked (links t) (t d).qSending l) (hnd : l.Nodup) (hs : s ∉ l) :
    Linked (links (enqueue t s d m l.getLast?)) (enqueue t s d m l.getLast? d).qSending
      (l ++ [s]) := by
  cases hl : l.getLast? with
  | none =>
    have hnil : l = [] := List.getLast?_eq_none_iff.mp hl
    subst hnil
    simp [enqueue, links]
  | some p =>
    have hq : (enqueue t s d m (some p) d).qSending = (t d).qSending := by simp [enqueue]
    rw [hq]
    refine (h.snoc hl hnd hs).congr fun a _ => ?_
    by_cases ha : a = s
    · subst ha; simp [links, enqueue]
    · by_cases hap : a = p
      · subst hap; simp [links, enqueue, ha]
      · simp [links, enqueue, ha, hap, Ne.symm hap]

theorem IsQueue.enqueue_self {t : ProcTable} {s d : Pid} {m : Addr} {l : List Pid}
    (h : IsQueue t d l) (hs : ¬ Sending (t s)) :
    IsQueue (enqueue t s d m l.getLast?) d (l ++ [s]) := by
  have hsl : s ∉ l := fun hc => hs ((h.mem_iff s).mp hc).1
  refine ⟨linked_enqueue m h.linked h.nodup hsl, ?_, fun x => ?_⟩
  · exact List.nodup_append.mpr ⟨h.nodup, by simp, fun a ha b hb => by
      rw [List.mem_singleton] at hb
      rintro rfl
      exact hsl (hb ▸ ha)⟩
  · rw [sendsTo_enqueue, List.mem_append, List.mem_singleton, h.mem_iff]
    by_cases hx : x = s
    · simp [hx]
    · simp [hx]

theorem IsQueue.enqueue_other {t : ProcTable} {s d d' : Pid} {m : Addr} {l l' : List Pid}
    (h : IsQueue t d l) (h' : IsQueue t d' l') (hd : d' ≠ d) (hs : ¬ Sending (t s)) :
    IsQueue (enqueue t s d m l.getLast?) d' l' := by
  refine ⟨?_, h'.nodup, fun x => ?_⟩
  · have hq : (enqueue t s d m l.getLast? d').qSending = (t d').qSending := by simp [enqueue, hd]
    rw [hq]
    refine h'.linked.congr fun a ha => ?_
    have has := (h'.mem_iff a).mp ha
    have h1 : a ≠ s := by rintro rfl; exact hs has.1
    -- the tail of the queue of `d` sends to `d`, not to `d'`
    have h2 : l.getLast? ≠ some a := fun hc =>
      hd (has.unique ((h.mem_iff a).mp (List.mem_of_getLast? hc)))
    simp [links, enqueue, h1, h2]
  · rw [sendsTo_enqueue, h'.mem_iff]
    constructor
    · intro hx
      exact .inr ⟨by rintro rfl; exact hs hx.1, hx⟩
    · rintro (⟨_, h2⟩ | ⟨_, h2⟩)
      · exact absurd h2 hd
      · exact h2

theorem QueueInv.enqueue {t : ProcTable} (h : QueueInv t) {s d : Pid} {m : Addr}
    {tail : Option Pid} (hs : ¬ Sending (t s)) (htail : FindsTail t d tail) :
    QueueInv (enqueue t s d m tail) := by
  obtain ⟨l, hl⟩ := h.queue d
  obtain rfl := hl.findsTail_iff.mp htail
  refine ⟨fun d' => ?_, fun x hx => ?_, fun x hx => ?_⟩
  · by_cases hd : d' = d
    · subst hd
      exact ⟨_, hl.enqueue_self hs⟩
    · obtain ⟨l', hl'⟩ := h.queue d'
      exact ⟨l', hl.enqueue_other hl' hd hs⟩
  · by_cases hxs : x = s
    · subst hxs; simp [SimpleOs.enqueue]
    · have hx' : ¬ Sending (t x) := by simpa [Sending, SimpleOs.enqueue, hxs] using hx
      have hxl : l.getLast? ≠ some x := fun hc =>
        hx' ((hl.mem_iff x).mp (List.mem_of_getLast? hc)).1
      simp [SimpleOs.enqueue, hxs, hxl, h.off x hx']
  · by_cases hxs : x = s
    · exact ⟨d, by simp [SimpleOs.enqueue, hxs]⟩
    · have hx' : Sending (t x) := by simpa [Sending, SimpleOs.enqueue, hxs] using hx
      simpa [SimpleOs.enqueue, hxs] using h.target x hx'

/-! ## Removing -/

theorem sendsTo_dequeue {t : ProcTable} {d f : Pid} {prev : Option Pid} {x d' : Pid} :
    SendsTo (dequeue t d f prev) x d' ↔ x ≠ f ∧ SendsTo t x d' := by
  by_cases hx : x = f
  · subst hx
    simp [SendsTo, sending_iff, dequeue]
  · simp [SendsTo, Sending, dequeue, hx]

theorem IsQueue.dequeue_self {t : ProcTable} {d f : Pid} {l₁ l₂ : List Pid}
    (h : IsQueue t d (l₁ ++ f :: l₂)) : IsQueue (dequeue t d f l₁.getLast?) d (l₁ ++ l₂) := by
  have hnd := h.nodup
  have hf : f ∉ l₁ ∧ f ∉ l₂ := by
    rw [List.nodup_append, List.nodup_cons] at hnd
    exact ⟨fun hc => hnd.2.2 f hc f (by simp) rfl, hnd.2.1.1⟩
  refine ⟨?_, ?_, fun x => ?_⟩
  · rcases List.eq_nil_or_concat l₁ with rfl | ⟨l₀, p, rfl⟩
    · -- the head: the queue starts at its successor
      have hq : (dequeue t d f none d).qSending = links t f := by simp [dequeue, links]
      rw [List.getLast?_nil, List.nil_append, hq]
      refine (h.linked.unlinkHead hnd).congr fun a ha => ?_
      have haf : a ≠ f := by rintro rfl; exact hf.2 ha
      simp [links, dequeue, haf]
    · -- behind `p`: the link of `p` skips `f`
      have hq : (dequeue t d f (some p) d).qSending = (t d).qSending := by simp [dequeue]
      rw [List.concat_eq_append, List.getLast?_concat, hq, List.append_assoc, List.singleton_append]
      have hl := h.linked
      rw [List.concat_eq_append, List.append_assoc, List.singleton_append] at hl hnd
      refine (hl.unlink hnd).congr fun a ha => ?_
      by_cases haf : a = f
      · subst haf; simp [links, dequeue]
      · by_cases hap : a = p
        · subst hap; simp [links, dequeue, haf]
        · simp [links, dequeue, haf, hap, Ne.symm hap]
  · exact hnd.sublist (List.append_sublist_append_left l₁ |>.mpr (List.sublist_cons_self f l₂))
  · rw [sendsTo_dequeue, ← h.mem_iff]
    simp only [List.mem_append, List.mem_cons]
    constructor
    · rintro (hx | hx)
      · exact ⟨by rintro rfl; exact hf.1 hx, .inl hx⟩
      · exact ⟨by rintro rfl; exact hf.2 hx, .inr (.inr hx)⟩
    · rintro ⟨hne, hx | hx | hx⟩
      · exact .inl hx
      · exact absurd hx hne
      · exact .inr hx

theorem IsQueue.dequeue_other {t : ProcTable} {d d' f : Pid} {l₁ l₂ l' : List Pid}
    (h : IsQueue t d (l₁ ++ f :: l₂)) (h' : IsQueue t d' l') (hd : d' ≠ d) :
    IsQueue (dequeue t d f l₁.getLast?) d' l' := by
  have hfd : SendsTo t f d := (h.mem_iff f).mp (by simp)
  refine ⟨?_, h'.nodup, fun x => ?_⟩
  · have hq : (dequeue t d f l₁.getLast? d').qSending = (t d').qSending := by simp [dequeue, hd]
    rw [hq]
    refine h'.linked.congr fun a ha => ?_
    have has := (h'.mem_iff a).mp ha
    have h1 : a ≠ f := by rintro rfl; exact hd (has.unique hfd)
    have h2 : l₁.getLast? ≠ some a := fun hc =>
      hd (has.unique ((h.mem_iff a).mp (List.mem_append_left _ (List.mem_of_getLast? hc))))
    simp [links, dequeue, h1, h2]
  · rw [sendsTo_dequeue, h'.mem_iff]
    exact ⟨fun hx => ⟨by rintro rfl; exact hd (hx.unique hfd), hx⟩, fun hx => hx.2⟩

theorem QueueInv.dequeue {t : ProcTable} (h : QueueInv t) {d f : Pid} {prev : Option Pid}
    (hf : SendsTo t f d) (hprev : FindsPrev t d f prev) : QueueInv (dequeue t d f prev) := by
  obtain ⟨l, hl⟩ := h.queue d
  obtain ⟨l₁, l₂, rfl, hfl, rfl⟩ := hl.findsPrev hf hprev
  refine ⟨fun d' => ?_, fun x hx => ?_, fun x hx => ?_⟩
  · by_cases hd : d' = d
    · subst hd
      exact ⟨_, hl.dequeue_self⟩
    · obtain ⟨l', hl'⟩ := h.queue d'
      exact ⟨l', hl.dequeue_other hl' hd⟩
  · by_cases hxf : x = f
    · subst hxf; simp [SimpleOs.dequeue]
    · have hx' : ¬ Sending (t x) := by simpa [Sending, SimpleOs.dequeue, hxf] using hx
      have hxl : l₁.getLast? ≠ some x := fun hc =>
        hx' ((hl.mem_iff x).mp (List.mem_append_left _ (List.mem_of_getLast? hc))).1
      simp [SimpleOs.dequeue, hxf, hxl, h.off x hx']
  · by_cases hxf : x = f
    · subst hxf
      simp [sending_iff, SimpleOs.dequeue] at hx
    · have hx' : Sending (t x) := by simpa [Sending, SimpleOs.dequeue, hxf] using hx
      simpa [SimpleOs.dequeue, hxf] using h.target x hx'

/-! ## Changes that do not touch the queues -/

/-- `t'` differs from `t` in nothing that the queues depend on. -/
structure SameQueues (t t' : ProcTable) : Prop where
  sending : ∀ p, Sending (t' p) ↔ Sending (t p)
  sendto : ∀ p, Sending (t p) → (t' p).pSendto = (t p).pSendto
  head : ∀ p, (t' p).qSending = (t p).qSending
  next : ∀ p, (t' p).nextSending = (t p).nextSending

theorem SameQueues.sendsTo {t t' : ProcTable} (h : SameQueues t t') {s d : Pid} :
    SendsTo t' s d ↔ SendsTo t s d := by
  unfold SendsTo
  rw [h.sending]
  constructor
  · rintro ⟨h1, h2⟩; exact ⟨h1, by rw [← h.sendto s h1, h2]⟩
  · rintro ⟨h1, h2⟩; exact ⟨h1, by rw [h.sendto s h1, h2]⟩

theorem SameQueues.isQueue {t t' : ProcTable} (h : SameQueues t t') {d : Pid} {l : List Pid}
    (hl : IsQueue t d l) : IsQueue t' d l := by
  refine ⟨?_, hl.nodup, fun s => by rw [h.sendsTo, hl.mem_iff]⟩
  rw [h.head]
  exact hl.linked.congr fun a _ => h.next a

theorem SameQueues.queueInv {t t' : ProcTable} (h : SameQueues t t') (hq : QueueInv t) :
    QueueInv t' := by
  refine ⟨fun d => ?_, fun s hs => ?_, fun s hs => ?_⟩
  · obtain ⟨l, hl⟩ := hq.queue d
    exact ⟨l, h.isQueue hl⟩
  · rw [h.next]
    exact hq.off s fun hc => hs ((h.sending s).mpr hc)
  · have hs' := (h.sending s).mp hs
    rw [h.sendto s hs']
    exact hq.target s hs'

theorem sameQueues_deliver (t : ProcTable) (d : Pid) : SameQueues t (deliver t d) := by
  refine ⟨fun p => ?_, fun p _ => rfl, fun p => rfl, fun p => rfl⟩
  by_cases hp : p = d
  · simp [sending_iff, deliver, hp]
  · simp [Sending, deliver, hp]

theorem sameQueues_park (t : ProcTable) (d : Pid) (r : ℤ) (m : Addr) :
    SameQueues t (park t d r m) := by
  refine ⟨fun p => ?_, fun p _ => rfl, fun p => rfl, fun p => rfl⟩
  by_cases hp : p = d
  · simp [sending_iff, park, hp]
  · simp [Sending, park, hp]

theorem sameQueues_clearInt (t : ProcTable) (d : Pid) : SameQueues t (clearInt t d) :=
  ⟨fun _ => Iff.rfl, fun _ _ => rfl, fun _ => rfl, fun _ => rfl⟩

/-! ## One call -/

theorem SendOutcome.queueInv {k k' : Machine} {s d : Pid} {m : Addr}
    (h : SendOutcome k s d m k') (hq : QueueInv k.procTable) (hs : ¬ Sending (k.procTable s)) :
    QueueInv k'.procTable := by
  cases h with
  | deliver => exact (sameQueues_deliver _ d).queueInv hq
  | enqueue _ _ tail htail r => exact hq.enqueue hs htail

theorem ReceiveOutcome.queueInv {k k' : Machine} {w : Pid} {src : ℤ} {m : Addr}
    (h : ReceiveOutcome k w src m k') (hq : QueueInv k.procTable) : QueueInv k'.procTable := by
  cases h with
  | interrupt => exact (sameQueues_clearInt _ w).queueInv hq
  | take f prev _ hfound hprev => exact hq.dequeue hfound.sendsTo hprev
  | wait => exact (sameQueues_park _ w _ _).queueInv hq

theorem Quiescent.not_sending {t : ProcTable} (h : Quiescent t) (s : Pid) : ¬ Sending (t s) := by
  rcases (h.idle s).flags with hf | hf <;> simp [Sending, hf]

theorem Quiescent.isQueue {t : ProcTable} (h : Quiescent t) (d : Pid) : IsQueue t d [] := by
  refine ⟨(h.idle d).queue, List.nodup_nil, fun s => ?_⟩
  simp only [List.not_mem_nil, false_iff]
  exact fun hc => h.not_sending s hc.1

theorem Quiescent.queueInv {t : ProcTable} (h : Quiescent t) : QueueInv t :=
  ⟨fun d => ⟨[], h.isQueue d⟩, fun s _ => (h.idle s).next, fun s hc => absurd hc (h.not_sending s)⟩

end SimpleOs
