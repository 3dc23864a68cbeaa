import Mathlib.Algebra.Group.Action.Defs
import Mathlib.Algebra.Order.BigOperators.Group.Finset
import Mathlib.Data.Fintype.BigOperators

/-!
# Request and reply over a rendezvous

One server and any number of clients that communicate by rendezvous: a sender
and a receiver that do not meet wait for each other. A client sends a request
and then asks for the reply; the server receives a request from anybody, and
then sends the reply to the client it came from. Between its two calls a client
can be overtaken by the server, which then waits for it while other clients
queue up.

* `Inv.step`, `Inv.taken_eq`: at most one request is being served, and the
  replies go to the clients whose requests were taken, in that order.
* `rank_lt`: every step of anybody brings a waiting client closer to its reply,
  so no schedule makes it wait for ever.
-/

namespace RequestReply

variable {α : Type*}

/-- Where a client is: not asking, blocked in the send, between the send and the
    receive, blocked in the receive. -/
inductive CState where
  | out
  | queued
  | due
  | parked
  deriving DecidableEq

/-- Where the server is: before its receive, blocked in it, before the send of a
    reply, blocked in it. -/
inductive Phase (α : Type*) where
  | receive
  | listening
  | serving (c : α)
  | replying (c : α)

/-- The client whose request is being served. -/
def Phase.inService : Phase α → List α
  | .receive => []
  | .listening => []
  | .serving c => [c]
  | .replying c => [c]

/-- The parties, the queue of the server, and what has happened: the requests the
    server has taken and the replies that have arrived. -/
structure State (α : Type*) where
  client : α → CState
  queue : List α
  phase : Phase α
  taken : List α
  replied : List α

/-- One call of one party. -/
inductive Step [DecidableEq α] (s : State α) : State α → Prop
  /-- A client meets the listening server. -/
  | sendMeets (c : α) (hc : s.client c = .out) (hp : s.phase = .listening) :
      Step s { s with
        client := Function.update s.client c .due
        phase := .serving c
        taken := s.taken ++ [c] }
  /-- A client queues up. -/
  | sendQueues (c : α) (hc : s.client c = .out) (hp : s.phase ≠ .listening) :
      Step s { s with
        client := Function.update s.client c .queued
        queue := s.queue ++ [c] }
  /-- A client meets the server that is sending to it. -/
  | receiveMeets (c : α) (hc : s.client c = .due) (hp : s.phase = .replying c) :
      Step s { s with
        client := Function.update s.client c .out
        phase := .receive
        replied := s.replied ++ [c] }
  /-- A client waits for its reply. -/
  | receiveParks (c : α) (hc : s.client c = .due) (hp : s.phase ≠ .replying c) :
      Step s { s with client := Function.update s.client c .parked }
  /-- The server takes the first request of its queue. -/
  | takes (c : α) (rest : List α) (hp : s.phase = .receive) (hq : s.queue = c :: rest) :
      Step s { s with
        client := Function.update s.client c .due
        queue := rest
        phase := .serving c
        taken := s.taken ++ [c] }
  /-- The server finds no request. -/
  | listens (hp : s.phase = .receive) (hq : s.queue = []) :
      Step s { s with phase := .listening }
  /-- The server meets the client that waits for its reply. -/
  | replyMeets (c : α) (hp : s.phase = .serving c) (hc : s.client c = .parked) :
      Step s { s with
        client := Function.update s.client c .out
        phase := .receive
        replied := s.replied ++ [c] }
  /-- The server waits for the client. -/
  | replyWaits (c : α) (hp : s.phase = .serving c) (hc : s.client c = .due) :
      Step s { s with phase := .replying c }

/-! ## The invariant -/

structure Inv (s : State α) : Prop where
  nodup : s.queue.Nodup
  mem_queue : ∀ c, c ∈ s.queue ↔ s.client c = .queued
  /-- Only the client in service is past its send. -/
  past : ∀ c, s.client c = .due ∨ s.client c = .parked ↔ c ∈ s.phase.inService
  /-- The server waits in a send only for a client that is not waiting. -/
  replying : ∀ c, s.phase = .replying c → s.client c = .due
  listening : s.phase = .listening → s.queue = []
  taken_eq : s.taken = s.replied ++ s.phase.inService

theorem Inv.not_inService {s : State α} (h : Inv s) {c : α} (hc : s.client c = .out) :
    c ∉ s.phase.inService := by
  intro hmem
  rcases (h.past c).mpr hmem with hx | hx
  · rw [hc] at hx
    cases hx
  · rw [hc] at hx
    cases hx

theorem Inv.not_mem_queue {s : State α} (h : Inv s) {c : α} (hc : s.client c ≠ .queued) :
    c ∉ s.queue := fun hmem => hc ((h.mem_queue c).mp hmem)

/-! ### One lemma for each step -/

section Steps

variable [DecidableEq α] {s : State α} {c : α}

/-- The queue when a client outside it moves on to another state outside it. -/
theorem Inv.mem_queue_update (h : Inv s) {v : CState} (hc : s.client c ≠ .queued)
    (hv : v ≠ .queued) (x : α) : x ∈ s.queue ↔ Function.update s.client c v x = .queued := by
  by_cases hx : x = c
  · subst hx
    rw [Function.update_self]
    exact ⟨fun hm => absurd hm (h.not_mem_queue hc), fun he => absurd he hv⟩
  · rw [Function.update_of_ne hx]
    exact h.mem_queue x

/-- The client in service when `c` is the one, whatever it was before. -/
theorem past_update {client : α → CState} {v : CState} (hv : v = .due ∨ v = .parked)
    (hother : ∀ x, x ≠ c → ¬ (client x = .due ∨ client x = .parked)) (x : α) :
    (Function.update client c v x = .due ∨ Function.update client c v x = .parked) ↔ x ∈ [c] := by
  rw [List.mem_singleton]
  by_cases hx : x = c
  · subst hx
    rw [Function.update_self]
    exact ⟨fun _ => rfl, fun _ => hv⟩
  · rw [Function.update_of_ne hx]
    exact ⟨fun hp => absurd hp (hother x hx), fun he => absurd he hx⟩

/-- Nobody is in service when the client that was has its reply. -/
theorem past_out {client : α → CState}
    (hother : ∀ x, x ≠ c → ¬ (client x = .due ∨ client x = .parked)) (x : α) :
    (Function.update client c .out x = .due ∨ Function.update client c .out x = .parked) ↔
      x ∈ ([] : List α) := by
  rw [List.mem_nil_iff, iff_false]
  by_cases hx : x = c
  · subst hx
    rw [Function.update_self]
    simp
  · rw [Function.update_of_ne hx]
    exact hother x hx

omit [DecidableEq α] in
/-- The other clients are before their send or behind their receive. -/
theorem Inv.others (h : Inv s) (hs : ∀ x, x ∈ s.phase.inService → x = c) (x : α) (hx : x ≠ c) :
    ¬ (s.client x = .due ∨ s.client x = .parked) :=
  fun hp => hx (hs x ((h.past x).mp hp))

theorem Inv.sendMeets (h : Inv s) (hc : s.client c = .out) (hp : s.phase = .listening) :
    Inv { s with
      client := Function.update s.client c .due
      phase := .serving c
      taken := s.taken ++ [c] } := by
  have htaken := h.taken_eq
  rw [hp] at htaken
  refine ⟨h.nodup, ?_, ?_, nofun, nofun, ?_⟩
  · exact h.mem_queue_update (by rw [hc]; decide) (by decide)
  · refine past_update (.inl rfl) (h.others fun x hx => ?_)
    rw [hp] at hx
    exact absurd hx List.not_mem_nil
  · simpa [Phase.inService] using htaken

theorem Inv.sendQueues (h : Inv s) (hc : s.client c = .out) (hp : s.phase ≠ .listening) :
    Inv { s with
      client := Function.update s.client c .queued
      queue := s.queue ++ [c] } := by
  have hnot : c ∉ s.queue := h.not_mem_queue (by rw [hc]; decide)
  refine ⟨?_, fun x => ?_, fun x => ?_, fun x hx => ?_, fun hx => absurd hx hp, h.taken_eq⟩
  · rw [List.nodup_append]
    refine ⟨h.nodup, List.nodup_singleton c, fun a ha b hb => ?_⟩
    rw [List.mem_singleton] at hb
    intro hab
    exact hnot (hb ▸ hab ▸ ha)
  · dsimp only
    rw [List.mem_append, List.mem_singleton, h.mem_queue]
    by_cases hx : x = c
    · subst hx
      simp
    · simp [hx]
  · dsimp only
    by_cases hx : x = c
    · subst hx
      simp [h.not_inService hc]
    · rw [Function.update_of_ne hx]
      exact h.past x
  · have hxc : x ≠ c := by
      intro hxc
      have := h.replying x hx
      rw [hxc, hc] at this
      cases this
    dsimp only
    rw [Function.update_of_ne hxc]
    exact h.replying x hx

theorem Inv.receiveParks (h : Inv s) (hc : s.client c = .due) (hp : s.phase ≠ .replying c) :
    Inv { s with client := Function.update s.client c .parked } := by
  refine ⟨h.nodup, ?_, fun x => ?_, fun x hx => ?_, h.listening, h.taken_eq⟩
  · exact h.mem_queue_update (by rw [hc]; decide) (by decide)
  · dsimp only
    by_cases hx : x = c
    · subst hx
      rw [← h.past x, hc]
      simp
    · rw [Function.update_of_ne hx]
      exact h.past x
  · have hxc : x ≠ c := by
      intro hxc
      exact hp (hxc ▸ hx)
    dsimp only
    rw [Function.update_of_ne hxc]
    exact h.replying x hx

/-- The reply arrives, whoever waited for whom. -/
theorem Inv.reply (h : Inv s) (hc : s.client c = .due ∨ s.client c = .parked)
    (hp : s.phase.inService = [c]) :
    Inv { s with
      client := Function.update s.client c .out
      phase := .receive
      replied := s.replied ++ [c] } := by
  have htaken := h.taken_eq
  rw [hp] at htaken
  refine ⟨h.nodup, ?_, ?_, nofun, nofun, ?_⟩
  · refine h.mem_queue_update ?_ (by decide)
    rcases hc with hc | hc
    · rw [hc]
      decide
    · rw [hc]
      decide
  · refine past_out (h.others fun x hx => ?_)
    rw [hp] at hx
    exact List.mem_singleton.mp hx
  · simpa [Phase.inService] using htaken

theorem Inv.takes {rest : List α} (h : Inv s) (hp : s.phase = .receive)
    (hq : s.queue = c :: rest) :
    Inv { s with
      client := Function.update s.client c .due
      queue := rest
      phase := .serving c
      taken := s.taken ++ [c] } := by
  have htaken := h.taken_eq
  rw [hp] at htaken
  have hnd := h.nodup
  rw [hq, List.nodup_cons] at hnd
  refine ⟨hnd.2, fun x => ?_, ?_, nofun, nofun, ?_⟩
  · dsimp only
    by_cases hx : x = c
    · subst hx
      simp [hnd.1]
    · rw [Function.update_of_ne hx, ← h.mem_queue, hq, List.mem_cons]
      simp [hx]
  · refine past_update (.inl rfl) (h.others fun x hx => ?_)
    rw [hp] at hx
    exact absurd hx List.not_mem_nil
  · simpa [Phase.inService] using htaken

omit [DecidableEq α] in
theorem Inv.listens (h : Inv s) (hp : s.phase = .receive) (hq : s.queue = []) :
    Inv { s with phase := .listening } := by
  have hpast := h.past
  have htaken := h.taken_eq
  rw [hp] at hpast htaken
  exact ⟨h.nodup, h.mem_queue, hpast, nofun, fun _ => hq, htaken⟩

omit [DecidableEq α] in
theorem Inv.replyWaits (h : Inv s) (hp : s.phase = .serving c) (hc : s.client c = .due) :
    Inv { s with phase := .replying c } := by
  have hpast := h.past
  have htaken := h.taken_eq
  rw [hp] at hpast htaken
  refine ⟨h.nodup, h.mem_queue, hpast, fun x hx => ?_, nofun, htaken⟩
  cases hx
  exact hc

theorem Inv.step {s' : State α} (h : Inv s) (hs : Step s s') : Inv s' := by
  cases hs with
  | sendMeets c hc hp => exact h.sendMeets hc hp
  | sendQueues c hc hp => exact h.sendQueues hc hp
  | receiveMeets c hc hp => exact h.reply (.inl hc) (by rw [hp]; rfl)
  | receiveParks c hc hp => exact h.receiveParks hc hp
  | takes c rest hp hq => exact h.takes hp hq
  | listens hp hq => exact h.listens hp hq
  | replyMeets c hp hc => exact h.reply (.inr hc) (by rw [hp]; rfl)
  | replyWaits c hp hc => exact h.replyWaits hp hc

end Steps

/-! ## No client waits for ever -/

/-- How many calls a client can make before the server must do something. -/
def CState.weight : CState → ℕ
  | .out => 2
  | .queued => 0
  | .due => 1
  | .parked => 0

/-- How far the server is from its next reply. -/
def Phase.stage : Phase α → ℕ
  | .receive => 3
  | .listening => 3
  | .serving _ => 2
  | .replying _ => 1

section Rank

variable [DecidableEq α] [Fintype α] {s s' : State α} {c : α}

/-- The replies that come before the one to `c`. -/
def ahead (s : State α) (c : α) : ℕ :=
  if c ∈ s.phase.inService then 0 else s.queue.idxOf c + 1 + s.phase.inService.length

def weights (s : State α) : ℕ := ∑ x, (s.client x).weight

/-- The number of calls, of anybody, after which `c` has its reply. The three
    parts count lexicographically. -/
def rank (s : State α) (c : α) : ℕ :=
  (ahead s c * 4 + s.phase.stage) * (2 * Fintype.card α + 1) + weights s

omit [DecidableEq α] in
theorem weights_le (s : State α) : weights s ≤ 2 * Fintype.card α := by
  have h : ∀ x ∈ Finset.univ, (s.client x).weight ≤ 2 := by
    intro x _
    cases s.client x <;> decide
  have := Finset.sum_le_card_nsmul Finset.univ _ 2 h
  rw [smul_eq_mul, Finset.card_univ, mul_comm] at this
  exact this

omit [DecidableEq α] [Fintype α] in
theorem stage_le (p : Phase α) : p.stage ≤ 3 := by
  cases p <;> simp [Phase.stage]

theorem weights_update_lt {v : CState} (h : v.weight < (s.client c).weight)
    (hs' : s'.client = Function.update s.client c v) : weights s' < weights s := by
  unfold weights
  rw [hs']
  refine Finset.sum_lt_sum (fun x _ => ?_) ⟨c, Finset.mem_univ c, ?_⟩
  · by_cases hx : x = c
    · subst hx
      rw [Function.update_self]
      exact h.le
    · rw [Function.update_of_ne hx]
  · rw [Function.update_self]
    exact h

theorem rank_lt_of_weights (ha : ahead s' c = ahead s c) (hp : s'.phase = s.phase)
    (hw : weights s' < weights s) : rank s' c < rank s c := by
  unfold rank
  rw [ha, hp]
  omega

/-- The first two parts count more than the third. -/
theorem rank_lt_of_lt (h : ahead s' c * 4 + s'.phase.stage < ahead s c * 4 + s.phase.stage) :
    rank s' c < rank s c := by
  have hw := weights_le s'
  have hmul := Nat.mul_le_mul_right (2 * Fintype.card α + 1) (Nat.succ_le_of_lt h)
  rw [Nat.succ_mul] at hmul
  unfold rank
  omega

theorem rank_lt_of_ahead (h : ahead s' c < ahead s c) : rank s' c < rank s c := by
  have := stage_le s'.phase
  exact rank_lt_of_lt (by omega)

theorem rank_lt_of_stage (ha : ahead s' c = ahead s c) (h : s'.phase.stage < s.phase.stage) :
    rank s' c < rank s c :=
  rank_lt_of_lt (by omega)

omit [Fintype α] [DecidableEq α] in
/-- A waiting client is in the queue or in service. -/
theorem Inv.waiting (h : Inv s) (hw : s.client c ≠ .out) : c ∈ s.queue ∨ c ∈ s.phase.inService := by
  cases hc : s.client c with
  | out => exact absurd hc hw
  | queued => exact .inl ((h.mem_queue c).mpr hc)
  | due => exact .inr ((h.past c).mp (.inl hc))
  | parked => exact .inr ((h.past c).mp (.inr hc))

omit [Fintype α] in
/-- Another client is served first: one reply less is ahead of `c`. -/
theorem ahead_reply {x : α} (h : Inv s) (hw : s.client c ≠ .out) (hx : s.phase.inService = [x])
    (hcx : c ≠ x) (hp' : s'.phase = .receive) (hq' : s'.queue = s.queue) :
    ahead s' c < ahead s c := by
  have hns : c ∉ s.phase.inService := by
    rw [hx, List.mem_singleton]
    exact hcx
  have hcq : c ∈ s.queue := (h.waiting hw).resolve_right hns
  unfold ahead
  rw [if_neg hns, if_neg (by rw [hp']; exact List.not_mem_nil), hp', hq', hx]
  simp [Phase.inService]

omit [Fintype α] in
theorem count_other {l : List α} {x : α} (hcx : c ≠ x) : (l ++ [x]).count c = l.count c := by
  simp [Ne.symm hcx]

/-- Every call brings a waiting client closer to its reply. -/
theorem rank_lt (h : Inv s) (hw : s.client c ≠ .out) (hs : Step s s') :
    s'.replied = s.replied ++ [c] ∨
      (s'.client c ≠ .out ∧ s'.replied.count c = s.replied.count c ∧ rank s' c < rank s c) := by
  have hwait := h.waiting hw
  cases hs with
  | sendMeets x hx hp =>
    -- the server listens only while nobody waits
    rw [h.listening hp, hp] at hwait
    simp [Phase.inService] at hwait
  | sendQueues x hx hp =>
    have hcx : c ≠ x := by
      rintro rfl
      exact hw hx
    refine .inr ⟨by dsimp only; rwa [Function.update_of_ne hcx], rfl, ?_⟩
    refine rank_lt_of_weights ?_ rfl (weights_update_lt (c := x) (by rw [hx]; decide) rfl)
    unfold ahead
    by_cases hserv : c ∈ s.phase.inService
    · rw [if_pos hserv, if_pos hserv]
    · rw [if_neg hserv, if_neg hserv]
      have hcq : c ∈ s.queue := hwait.resolve_right hserv
      dsimp only
      rw [List.idxOf_append_of_mem hcq]
  | receiveMeets x hx hp =>
    have hserv : s.phase.inService = [x] := by rw [hp]; rfl
    by_cases hcx : c = x
    · subst hcx
      exact .inl rfl
    · refine .inr ⟨by dsimp only; rwa [Function.update_of_ne hcx], count_other hcx, ?_⟩
      exact rank_lt_of_ahead (ahead_reply h hw hserv hcx rfl rfl)
  | receiveParks x hx hp =>
    refine .inr ⟨?_, rfl, rank_lt_of_weights rfl rfl
      (weights_update_lt (c := x) (by rw [hx]; decide) rfl)⟩
    dsimp only
    by_cases hcx : c = x
    · subst hcx
      rw [Function.update_self]
      decide
    · rwa [Function.update_of_ne hcx]
  | takes x rest hp hq =>
    rw [hp, hq] at hwait
    have hcq : c ∈ x :: rest := hwait.resolve_right List.not_mem_nil
    have hahead : ahead s c = (x :: rest).idxOf c + 1 := by
      rw [ahead, hp, hq]
      simp [Phase.inService]
    by_cases hcx : c = x
    · subst hcx
      refine .inr ⟨by dsimp only; rw [Function.update_self]; decide, rfl, rank_lt_of_ahead ?_⟩
      rw [hahead, ahead, if_pos (by simp [Phase.inService])]
      omega
    · refine .inr ⟨by dsimp only; rwa [Function.update_of_ne hcx], rfl, rank_lt_of_stage ?_ ?_⟩
      · rw [hahead, ahead, if_neg (by simp [Phase.inService, hcx])]
        simp only [Phase.inService, List.length_singleton]
        rw [List.idxOf_cons_ne _ (Ne.symm hcx)]
      · rw [hp]
        simp [Phase.stage]
  | listens hp hq =>
    rw [hp, hq] at hwait
    simp [Phase.inService] at hwait
  | replyMeets x hp hx =>
    have hserv : s.phase.inService = [x] := by rw [hp]; rfl
    by_cases hcx : c = x
    · subst hcx
      exact .inl rfl
    · refine .inr ⟨by dsimp only; rwa [Function.update_of_ne hcx], count_other hcx, ?_⟩
      exact rank_lt_of_ahead (ahead_reply h hw hserv hcx rfl rfl)
  | replyWaits x hp hx =>
    refine .inr ⟨hw, rfl, rank_lt_of_stage ?_ ?_⟩
    · rw [ahead, ahead, hp]
      rfl
    · rw [hp]
      simp [Phase.stage]

end Rank

/-! ## Systems that follow the protocol -/

/-- In a system that follows the protocol step by step (`R`), every infinite run
    brings a waiting client exactly one further reply. -/
theorem eventually_replied [DecidableEq α] [Fintype α] {σ : Type*} {step : σ → σ → Prop}
    {R : σ → State α → Prop} (hinv : ∀ a g, R a g → Inv g)
    (hsim : ∀ a g a', R a g → step a a' → ∃ g', Step g g' ∧ R a' g') {c : α} :
    ∀ (n : ℕ) (g : State α) (f : ℕ → σ), rank g c ≤ n → R (f 0) g → g.client c ≠ .out →
      (∀ i, step (f i) (f (i + 1))) →
      ∃ i g', R (f i) g' ∧ g'.replied.count c = g.replied.count c + 1 := by
  intro n
  induction n with
  | zero =>
    intro g f hn hR hw hrun
    obtain ⟨g', hstep, hR'⟩ := hsim _ _ _ hR (hrun 0)
    rcases rank_lt (hinv _ _ hR) hw hstep with h | ⟨_, _, h⟩
    · exact ⟨1, g', hR', by rw [h]; simp⟩
    · omega
  | succ n ih =>
    intro g f hn hR hw hrun
    obtain ⟨g', hstep, hR'⟩ := hsim _ _ _ hR (hrun 0)
    rcases rank_lt (hinv _ _ hR) hw hstep with h | ⟨hw', hcount, h⟩
    · exact ⟨1, g', hR', by rw [h]; simp⟩
    · -- the rest of the run, from the next state on
      obtain ⟨i, g'', hR'', h''⟩ :=
        ih g' (fun i => f (i + 1)) (by omega) hR' hw' fun i => hrun (i + 1)
      exact ⟨i + 1, g'', hR'', by rw [h'', hcount]⟩

end RequestReply
