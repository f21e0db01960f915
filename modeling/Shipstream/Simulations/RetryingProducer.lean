import Shipstream.Simulations.Idempotence
import Shipstream.Simulations.Producers

/-! The produce loop of sim_idempotence.py inside its round: every run of the loop with its
callbacks is one of the round's runs with the network. -/
namespace Shipstream.Simulations.Idempotence
open Kafka Transition

variable {idempotent : Bool} {count capacity : Nat} {outcome : Nat → Producer.Outcome String Producer.Receipt}
  {p q : Producer.State Vars} {s : State} {ev : Producer.Event}

/-- The messages accepted and not called back. -/
def InFlight (p : Producer.State Vars) (k : Nat) : Prop := k ∈ p.waiting ∨ k ∈ p.ready ∨ k ∈ p.point.reports

/-- A state of the loop and one of the round: the same messages are handed over and pending, the
same are counted, and a request of each pending one is under way. -/
structure Agree (count : Nat) (outcome : Nat → Producer.Outcome String Producer.Receipt)
    (p : Producer.State Vars) (s : State) : Prop where
  inv : Producer.Inv (produceWithRetries count) outcome p
  produced : s.produced = p.next
  pending : ∀ k, k ∈ s.pending ↔ InFlight p k
  requests : ∀ k, InFlight p k → 0 < s.requests k
  confirmed : s.confirmed = p.vars.confirmed
  errors : s.errors = p.vars.errors
  producing : p.point ≠ .returned → s.main = .producing
  settling : p.point = .returned → s.main = .settling

theorem Agree.erase {k : Nat} (h : Agree count outcome p s) (hflight : ∀ j, InFlight q j ↔ InFlight p j ∧ j ≠ k)
    (j : Nat) : j ∈ s.pending.erase k ↔ InFlight q j := by
  rw [Finset.mem_erase, h.pending, hflight, and_comm]

/-- A callback of the loop is a report of the round, or a message given up. -/
theorem Agree.callback {k : Nat} (h : Agree count outcome p s) (hk : InFlight p k) (hp : p.point ≠ .returned)
    (hq : Producer.Inv (produceWithRetries count) outcome q) (hnext : q.next = p.next)
    (hflight : ∀ j, InFlight q j ↔ InFlight p j ∧ j ≠ k)
    (hvars : q.vars = (produceWithRetries count).handle (outcome k) p.vars) (hpoint : q.point ≠ .returned) :
    ∃ events t, Run (Step idempotent count) s events t ∧ Agree count outcome q t := by
  have hmain := h.producing hp
  have hpending := (h.pending k).mpr hk
  cases ho : outcome k with
  | delivered receipt =>
    rw [ho] at hvars
    have hrequests : ∀ j, InFlight q j → 0 < Function.update s.requests k (s.requests k - 1) j := by
      intro j hj
      obtain ⟨hin, hne⟩ := (hflight j).mp hj
      rw [Function.update_of_ne hne]
      exact h.requests j hin
    refine ⟨_, _, .cons (.arrive k (h.requests k hk)) (.cons (.report k hmain hpending
      (Finset.mem_insert_self _ _)) (.nil _)), hq, h.produced.trans hnext.symm, h.erase hflight, hrequests,
      ?_, ?_, fun _ => hmain, fun hr => absurd hr hpoint⟩
    · rw [hvars]
      exact congrArg (· + 1) h.confirmed
    · rw [hvars]
      exact h.errors
  | failed err =>
    rw [ho] at hvars
    refine ⟨_, _, .cons (.giveUp k hmain hpending) (.nil _), hq, h.produced.trans hnext.symm, h.erase hflight,
      fun j hj => h.requests j ((hflight j).mp hj).1, ?_, ?_, fun _ => hmain, fun hr => absurd hr hpoint⟩
    · rw [hvars]
      exact h.confirmed
    · rw [hvars]
      exact congrArg (· + 1) h.errors
  | refused err =>
    have := h.inv.answered k hk
    rw [ho] at this
    cases this

/-- A step that hands over and calls back nothing is no step of the round. -/
theorem Agree.keep (h : Agree count outcome p s) (hq : Producer.Inv (produceWithRetries count) outcome q)
    (hnext : q.next = p.next) (hflight : ∀ j, InFlight q j ↔ InFlight p j) (hvars : q.vars = p.vars)
    (hpoint : q.point = .returned ↔ p.point = .returned) :
    ∃ events t, Run (Step idempotent count) s events t ∧ Agree count outcome q t := by
  refine ⟨[], s, .nil s, hq, h.produced.trans hnext.symm, fun j => ?_, fun j hj => h.requests j ((hflight j).mp hj),
    hvars ▸ h.confirmed, hvars ▸ h.errors, fun hne => h.producing (hpoint.not.mp hne), fun hr => ?_⟩
  · rw [h.pending, hflight]
  · exact h.settling (hpoint.mp hr)

/-- An accepted message is handed over in the round, with a first request under way. -/
theorem Agree.accept (h : Agree count outcome p s) (hp : p.point ≠ .returned) (hn : p.next < count)
    (hq : Producer.Inv (produceWithRetries count) outcome q) (hnext : q.next = p.next + 1)
    (hflight : ∀ j, InFlight q j ↔ j = p.next ∨ InFlight p j) (hvars : q.vars = p.vars)
    (hpoint : q.point ≠ .returned) :
    ∃ events t, Run (Step idempotent count) s events t ∧ Agree count outcome q t := by
  have hmain := h.producing hp
  have hrequests : ∀ j, InFlight q j → 0 < Function.update s.requests s.produced 1 j := by
    intro j hj
    by_cases he : j = s.produced
    · rw [he, Function.update_self]
      exact Nat.zero_lt_one
    · rw [Function.update_of_ne he]
      exact h.requests j (((hflight j).mp hj).resolve_left (h.produced ▸ he))
  refine ⟨_, _, .cons (.produce hmain (h.produced.symm ▸ hn)) (.nil _), hq, ?_, fun j => ?_, hrequests,
    hvars ▸ h.confirmed, hvars ▸ h.errors, fun _ => hmain, fun hr => absurd hr hpoint⟩
  · rw [hnext, h.produced]
  · rw [Finset.mem_insert, h.pending, hflight, h.produced]

/-- A flush that is over ends the producing of the round. -/
theorem Agree.endFlush (h : Agree count outcome p s) (hp : p.point = .flush)
    (hq : Producer.Inv (produceWithRetries count) outcome q) (hnext : q.next = p.next)
    (hflight : ∀ j, InFlight q j ↔ InFlight p j) (hvars : q.vars = p.vars) (hpoint : q.point = .returned) :
    ∃ events t, Run (Step idempotent count) s events t ∧ Agree count outcome q t := by
  have hmain := h.producing (by simp [hp])
  have hcount : s.produced = count := h.produced.trans (h.inv.left (.inl hp))
  refine ⟨_, _, .cons (.endFlush hmain hcount) (.nil _), hq, h.produced.trans hnext.symm, fun j => ?_,
    fun j hj => h.requests j ((hflight j).mp hj), hvars ▸ h.confirmed, hvars ▸ h.errors,
    fun hr => absurd hpoint hr, fun _ => rfl⟩
  rw [h.pending, hflight]

/-- Each step of the loop is answered by steps of the round. -/
theorem Agree.step (hs : Producer.Step (produceWithRetries count) capacity outcome p ev q)
    (h : Agree count outcome p s) :
    ∃ events t, Run (Step idempotent count) s events t ∧ Agree count outcome q t := by
  have hq := hs.inv h.inv
  cases hs with
  | accept hp hn hq' ho =>
    refine h.accept (by simp [hp]) hn hq rfl (fun j => ?_) rfl
      ((produceWithRetries count).after_ne (k := p.next) rfl)
    simp only [InFlight, Producer.Program.after_reports, hp, Finset.mem_insert, or_assoc]
    rfl
  | refuse hp hn hq' ho hr => cases hr
  | raise hp | overflow hp | endPoll hp | beginFlush hp =>
    refine h.keep hq rfl (fun j => ?_) rfl ?_
    · simp [InFlight, hp, Producer.Point.reports]
    · simp [hp]
  | answer k hk =>
    refine h.keep hq rfl (fun j => ?_) rfl Iff.rfl
    by_cases hj : j = k
    · simp [InFlight, hj, hk]
    · simp [InFlight, hj]
  | beginPoll hp =>
    refine h.keep hq rfl (fun j => ?_) rfl (by simp [hp])
    simp [InFlight, hp, Producer.Point.reports]
  | pollCallback reports k hp hk =>
    refine h.callback (.inr (.inr (by rwa [hp]))) (by simp [hp]) hq rfl (fun j => ?_) rfl (by simp)
    have hsettled := hq.settled_not_inFlight (k := k) (by simp)
    by_cases hj : j = k
    · subst hj
      simpa [InFlight] using hsettled
    · simp [InFlight, hp, Producer.Point.reports, hj]
  | flushCallback k hp hk =>
    refine h.callback (.inr (.inl hk)) (by simp [hp]) hq rfl (fun j => ?_) rfl (by simp [hp])
    have hsettled := hq.settled_not_inFlight (k := k) (by simp)
    by_cases hj : j = k
    · subst hj
      simpa [InFlight] using hsettled
    · simp [InFlight, hj]
  | endFlush hp ht =>
    refine h.endFlush hp hq rfl (fun j => ?_) rfl rfl
    simp [InFlight, hp, Producer.Point.reports]

/-- Every run of `produce_with_retries` is one of the round's runs: as many messages are handed
over, counted as confirmed and counted as errors, and the round settles when the loop returns. -/
theorem produceWithRetries_round {events : List Producer.Event}
    (hrun : Run (Producer.Step (produceWithRetries count) capacity outcome) (produceWithRetries count).initial
      events p) :
    ∃ events s, Run (Step idempotent count) initial events s ∧ s.produced = p.next ∧
      s.confirmed = p.vars.confirmed ∧ s.errors = p.vars.errors ∧ (p.point = .returned → s.main = .settling) := by
  have hinitial : Agree count outcome (produceWithRetries count).initial initial := by
    refine ⟨Producer.initial_inv, rfl, fun k => ?_, fun k hk => ?_, rfl, rfl, fun _ => rfl, fun hr => by cases hr⟩
    · simp [InFlight, initial, Producer.Program.initial, Producer.Point.reports]
    · simp [InFlight, Producer.Program.initial, Producer.Point.reports] at hk
  obtain ⟨events, s, hround, h⟩ := hrun.simulate (Agree count outcome) (fun _ _ _ _ hs => Agree.step hs) hinitial
  exact ⟨events, s, hround, h.produced, h.confirmed, h.errors, h.settling⟩

/-- One message is delivered and one is given up. -/
def deliveredAndTimedOut : Nat → Producer.Outcome String Producer.Receipt
  | 0 => .delivered ⟨0, 0⟩
  | _ => .failed "Local: Message timed out"

private theorem run_retries : ∃ events p, Run (Producer.Step (produceWithRetries 2) 10 deliveredAndTimedOut)
    (produceWithRetries 2).initial events p ∧ p.point = .returned ∧ p.next = 2 ∧ p.vars = ⟨1, 1⟩ := by
  refine ⟨_, _, .cons (.accept rfl (by decide) ?_ rfl) <| .cons (.beginPoll rfl) <| .cons (.endPoll rfl) <|
    .cons (.answer 0 ?_) <| .cons (.accept rfl (by decide) ?_ rfl) <| .cons (.beginPoll rfl) <|
    .cons (.pollCallback _ 0 rfl ?_) <| .cons (.endPoll (by rfl)) <| .cons (.beginFlush rfl rfl) <|
    .cons (.answer 1 ?_) <| .cons (.flushCallback 1 rfl ?_) <| .cons (.endFlush rfl (.inl ?_)) <| .nil _,
    rfl, rfl, rfl⟩
  all_goals decide

theorem produceWithRetries_round_timed_out : ∃ p : Producer.State Vars, p.point = .returned ∧
    ∃ events s, Run (Step true 2) initial events s ∧ s.produced = p.next ∧ s.confirmed = 1 ∧ s.errors = 1 ∧
      s.main = .settling := by
  obtain ⟨_, p, hrun, hp, -, hvars⟩ := run_retries
  obtain ⟨events, s, hround, hproduced, hconfirmed, herrors, hsettling⟩ :=
    @produceWithRetries_round true 2 10 deliveredAndTimedOut p _ hrun
  refine ⟨p, hp, events, s, hround, hproduced, ?_, ?_, hsettling hp⟩
  · rw [hconfirmed, hvars]
  · rw [herrors, hvars]

end Shipstream.Simulations.Idempotence
