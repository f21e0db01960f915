import Shipstream.Simulations.Producers

/-! simulations/sim_segment_roll.py `produce_messages`: with `one_at_a_time` it flushes after every
message, without it only at the end. -/
namespace Shipstream.Simulations.SegmentRoll
open Kafka Kafka.Producer Transition

def onDelivery : Except String Receipt → Nat → Nat
  | .error _, delivered => delivered
  | .ok _, delivered => delivered + 1

/-- A loop of `produce` calls that may poll after each, with a flush behind it. -/
def produceLoop (topic : String) (count : Nat) (polls : Bool) : Program String Receipt Nat where
  topic := topic
  count := count
  vars := 0
  onDelivery := onDelivery
  onRefused := none
  pollsAfter _ := polls
  flushTimesOut := false

/-- `produce_messages` without `one_at_a_time`. -/
def produceMessages (topic : String) (count : Nat) : Program String Receipt Nat := produceLoop topic count false

private theorem produceLoop_counts (topic : String) (count : Nat) (polls : Bool) :
    Counts (produceLoop topic count polls) id Outcome.isDelivered := by
  refine ⟨rfl, fun o delivered => ?_⟩
  cases o <;> rfl

/-- `produce_messages` with `one_at_a_time`. At the point `.poll` the program is in the flush of its
loop, which it leaves when nothing is outstanding. -/
inductive FlushStep (topic : String) (count capacity : Nat) (outcome : Nat → Outcome String Receipt) :
    Producer.State Nat → Producer.Event → Producer.State Nat → Prop where
  | accept {s : Producer.State Nat} (hp : s.point = .produce) (hn : s.next < count) (hq : s.backlog < capacity)
      (ho : (outcome s.next).isRefused = false) : FlushStep topic count capacity outcome s .accept { s with
        next := s.next + 1
        accepted := s.accepted + 1
        waiting := insert s.next s.waiting
        point := .poll }
  | raise {s : Producer.State Nat} (hp : s.point = .produce) (hn : s.next < count) (hq : s.backlog < capacity)
      (ho : (outcome s.next).isRefused = true) :
      FlushStep topic count capacity outcome s .raise { s with point := .kafkaException }
  | overflow {s : Producer.State Nat} (hp : s.point = .produce) (hn : s.next < count) (hq : capacity ≤ s.backlog) :
      FlushStep topic count capacity outcome s .overflow { s with point := .bufferError }
  | answer {s : Producer.State Nat} (k : Nat) (hk : k ∈ s.waiting) :
      FlushStep topic count capacity outcome s (.answer k) { s with
        waiting := s.waiting.erase k
        ready := insert k s.ready }
  | callback {s : Producer.State Nat} (k : Nat) (hp : s.point = .poll ∨ s.point = .flush) (hk : k ∈ s.ready) :
      FlushStep topic count capacity outcome s (.callback k) { s with
        ready := s.ready.erase k
        settled := s.settled ++ [k]
        vars := (produceMessages topic count).handle (outcome k) s.vars }
  | endInner {s : Producer.State Nat} (hp : s.point = .poll) (hb : s.backlog = 0) :
      FlushStep topic count capacity outcome s .endPoll { s with point := .produce }
  | beginFlush {s : Producer.State Nat} (hp : s.point = .produce) (hn : s.next = count) :
      FlushStep topic count capacity outcome s .beginFlush { s with point := .flush }
  | endFlush {s : Producer.State Nat} (hp : s.point = .flush) (hb : s.backlog = 0) :
      FlushStep topic count capacity outcome s .endFlush { s with point := .returned }

section
variable {topic : String} {count capacity : Nat} {outcome : Nat → Outcome String Receipt} {s t p : Producer.State Nat}
  {ev : Producer.Event} {events events' : List Producer.Event} {k : Nat}

/-- A state of the flushing loop and one of the polling loop. They are the same but where the flush
of the loop has served its message: there the poll is still at work. -/
structure Agree (topic : String) (count : Nat) (outcome : Nat → Outcome String Receipt) (s p : Producer.State Nat) :
    Prop where
  inv : Producer.Inv (produceLoop topic count true) outcome p
  order : s.settled = List.range s.settled.length
  point : p = s ∧ s.point.reports = ∅ ∧ s.backlog = (if s.point = .poll then 1 else 0) ∨
    s.point = .poll ∧ s.backlog = 0 ∧ p = { s with point := .serving ∅ }

/-- Outside of the flush in the loop nothing is outstanding. -/
theorem Agree.quiet (h : Agree topic count outcome s p) (hp : s.point ≠ .poll) : p = s ∧ s.backlog = 0 := by
  rcases h.point with ⟨rfl, -, hb⟩ | ⟨hpoll, -⟩
  · exact ⟨rfl, hb.trans (if_neg hp)⟩
  · exact absurd hpoll hp

/-- The message that is waited for is the only one outstanding, and the last one handed over. -/
theorem Agree.waits (h : Agree topic count outcome s p) (hk : k ∈ s.waiting ∨ k ∈ s.ready) :
    p = s ∧ s.point = .poll ∧ s.backlog = 1 ∧ s.settled ++ [k] = List.range s.next := by
  have hpos : 0 < s.backlog := by
    rcases hk with hk | hk
    · have := Finset.card_pos.mpr ⟨k, hk⟩
      unfold State.backlog
      omega
    · have := Finset.card_pos.mpr ⟨k, hk⟩
      unfold State.backlog
      omega
  rcases h.point with ⟨rfl, -, hb⟩ | ⟨-, hb, -⟩
  · have hpoll : p.point = .poll := by
      by_contra hne
      rw [if_neg hne] at hb
      omega
    rw [if_pos hpoll] at hb
    refine ⟨rfl, hpoll, hb, ?_⟩
    have hflight : k ∈ p.waiting ∨ k ∈ p.ready ∨ k ∈ p.point.reports := hk.imp_right .inl
    have hlt : k < p.next := h.inv.lt_next (State.mem_places.mpr (hflight.imp_right (Or.imp_right .inl)))
    have hnot : k ∉ p.settled := fun hs => h.inv.settled_not_inFlight hs hflight
    have hlength := h.inv.backlog_add
    rw [h.order, List.mem_range] at hnot
    obtain rfl : k = p.settled.length := by omega
    rw [← hlength, hb, Nat.add_comm, List.range_succ, ← h.order]
  · omega

/-- The program goes on elsewhere while nothing is outstanding. -/
theorem agree_of_quiet (horder : s.settled = List.range s.settled.length) (hb : s.backlog = 0) {point : Point}
    (hreports : point.reports = ∅) (hpoint : point ≠ .poll)
    (hq : Producer.Inv (produceLoop topic count true) outcome { s with point := point }) :
    Agree topic count outcome { s with point := point } { s with point := point } := by
  have hzero : State.backlog { s with point := point } = 0 := by
    simp only [State.backlog, Nat.add_eq_zero_iff] at hb ⊢
    exact ⟨hb.1, by rw [hreports, Finset.card_empty]⟩
  exact ⟨hq, horder, .inl ⟨rfl, hreports, hzero.trans (if_neg hpoint).symm⟩⟩

/-- Each step of the flushing loop is answered by steps of the polling loop. -/
theorem FlushStep.answered (hs : FlushStep topic count capacity outcome s ev t) (h : Agree topic count outcome s p) :
    ∃ events q, Run (Producer.Step (produceLoop topic count true) capacity outcome) p events q ∧
      Agree topic count outcome t q := by
  cases hs with
  | accept hp hn hq ho =>
    obtain ⟨rfl, hb⟩ := h.quiet (by simp [hp])
    have hstep : Producer.Step (produceLoop topic count true) capacity outcome p .accept _ := .accept hp hn hq ho
    have hbefore := h.inv.backlog_add
    have hafter := (hstep.inv h.inv).backlog_add
    refine ⟨_, _, .cons hstep (.nil _), hstep.inv h.inv, h.order, .inl ⟨rfl, rfl, ?_⟩⟩
    exact Nat.add_right_cancel (hafter.trans (by omega : p.next + 1 = 1 + p.settled.length))
  | raise hp hn hq ho =>
    obtain ⟨rfl, hb⟩ := h.quiet (by simp [hp])
    have hstep : Producer.Step (produceLoop topic count true) capacity outcome p .raise _ := .raise hp hn hq ho rfl
    exact ⟨_, _, .cons hstep (.nil _), agree_of_quiet h.order hb rfl (by simp) (hstep.inv h.inv)⟩
  | overflow hp hn hq =>
    obtain ⟨rfl, hb⟩ := h.quiet (by simp [hp])
    have hstep : Producer.Step (produceLoop topic count true) capacity outcome p .overflow _ := .overflow hp hn hq
    exact ⟨_, _, .cons hstep (.nil _), agree_of_quiet h.order hb rfl (by simp) (hstep.inv h.inv)⟩
  | answer k hk =>
    obtain ⟨rfl, hp, hb, -⟩ := h.waits (.inl hk)
    have hstep : Producer.Step (produceLoop topic count true) capacity outcome p (.answer k) _ := .answer k hk
    have hbefore := h.inv.backlog_add
    have hafter := (hstep.inv h.inv).backlog_add
    refine ⟨_, _, .cons hstep (.nil _), hstep.inv h.inv, h.order, .inl ⟨rfl, ?_, ?_⟩⟩
    · rw [hp]
      rfl
    · rw [if_pos hp]
      exact Nat.add_right_cancel (hafter.trans (by omega : p.next = 1 + p.settled.length))
  | callback k hp hk =>
    obtain ⟨rfl, hpoll, hb, horder⟩ := h.waits (.inr hk)
    have hfirst : Producer.Step (produceLoop topic count true) capacity outcome p .beginPoll _ := .beginPoll hpoll
    have hsecond : Producer.Step (produceLoop topic count true) capacity outcome
      { p with ready := ∅, point := .serving p.ready } (.callback k) _ := .pollCallback p.ready k rfl hk
    have hcards : p.waiting = ∅ ∧ p.ready.erase k = ∅ := by
      have hcard := Finset.card_erase_add_one hk
      simp only [State.backlog, hpoll, Point.reports, Finset.card_empty] at hb
      rw [← Finset.card_eq_zero, ← Finset.card_eq_zero]
      omega
    refine ⟨_, _, .cons hfirst (.cons hsecond (.nil _)), hsecond.inv (hfirst.inv h.inv), ?_, .inr ⟨hpoll, ?_, ?_⟩⟩
    · have hlength := congrArg List.length horder
      rw [List.length_range] at hlength
      exact hlength ▸ horder
    · simp [State.backlog, hcards, hpoll, Point.reports]
    · rw [hcards.2]
      rfl
  | endInner hp hb =>
    rcases h.point with ⟨rfl, -, hb'⟩ | ⟨-, -, rfl⟩
    · rw [hb, if_pos hp] at hb'
      cases hb'
    · have hstep :
          Producer.Step (produceLoop topic count true) capacity outcome { s with point := .serving ∅ } .endPoll _ :=
        .endPoll rfl
      exact ⟨_, _, .cons hstep (.nil _), agree_of_quiet h.order hb rfl (by simp) (hstep.inv h.inv)⟩
  | beginFlush hp hn =>
    obtain ⟨rfl, hb⟩ := h.quiet (by simp [hp])
    have hstep : Producer.Step (produceLoop topic count true) capacity outcome p .beginFlush _ := .beginFlush hp hn
    exact ⟨_, _, .cons hstep (.nil _), agree_of_quiet h.order hb rfl (by simp) (hstep.inv h.inv)⟩
  | endFlush hp hb =>
    obtain ⟨rfl, hb⟩ := h.quiet (by simp [hp])
    have hstep : Producer.Step (produceLoop topic count true) capacity outcome p .endFlush _ := .endFlush hp (.inl hb)
    exact ⟨_, _, .cons hstep (.nil _), agree_of_quiet h.order hb rfl (by simp) (hstep.inv h.inv)⟩

/-- A queue with room for one message is enough. -/
theorem FlushStep.no_bufferError (hs : FlushStep topic count capacity outcome s ev t) (h : Agree topic count outcome s p)
    (hc : 0 < capacity) (hne : s.point ≠ .bufferError) : t.point ≠ .bufferError := by
  cases hs with
  | overflow hp hn hq =>
    have hb := (h.quiet (by simp [hp])).2
    omega
  | answer | callback => exact hne
  | _ => exact Point.noConfusion

private theorem run_agree
    (hrun : Run (FlushStep topic count capacity outcome) (produceMessages topic count).initial events s) :
    ∃ events p,
      Run (Producer.Step (produceLoop topic count true) capacity outcome) (produceLoop topic count true).initial
      events p ∧ Agree topic count outcome s p :=
  hrun.simulate (Agree topic count outcome) (fun _ _ _ _ hs h => hs.answered h) ⟨initial_inv, rfl, .inl ⟨rfl, rfl, rfl⟩⟩

private theorem returned_delivered {polls : Bool} (h : Producer.Inv (produceLoop topic count polls) outcome p)
    (hp : p.point = .returned) : p.vars = (List.range count).countP fun k => (outcome k).isDelivered := by
  have hb := (h.flushed hp).resolve_right Bool.false_ne_true
  exact (h.counter_eq (produceLoop_counts topic count polls)).trans (h.tally_all hp hb _)

/-- One at a time, the messages are settled in the order in which they are handed over, with at most
one outstanding, and a queue of any size is large enough; what is returned is what
`produce_messages` returns without the flag for the same outcomes. -/
theorem one_at_a_time
    (hrun : Run (FlushStep topic count capacity outcome) (produceMessages topic count).initial events s) :
    s.settled = List.range s.settled.length ∧ s.next ≤ s.settled.length + 1 ∧
      (0 < capacity → s.point ≠ .bufferError) ∧
      ∀ capacity' events' p, Run (Producer.Step (produceMessages topic count) capacity' outcome)
        (produceMessages topic count).initial events' p →
        s.point = .returned → p.point = .returned → s.vars = p.vars := by
  obtain ⟨-, p, -, h⟩ := run_agree hrun
  refine ⟨h.order, ?_, fun hc => ?_, fun capacity' events' q hbatch hs hq => ?_⟩
  · have hlength := h.inv.backlog_add
    rcases h.point with ⟨rfl, -, hb⟩ | ⟨hpoll, hb, rfl⟩
    · split at hb <;> omega
    · have hsame : State.backlog { s with point := .serving ∅ } = s.backlog := by
        simp only [State.backlog, hpoll, Point.reports]
      dsimp only at hlength
      omega
  · suffices hboth : (∃ p, Agree topic count outcome s p) ∧ s.point ≠ .bufferError from hboth.2
    refine hrun.invariant (fun s => (∃ p, Agree topic count outcome s p) ∧ s.point ≠ .bufferError) ?_
      ⟨⟨_, initial_inv, rfl, .inl ⟨rfl, rfl, rfl⟩⟩, by simp [Program.initial]⟩
    rintro s ev t hs ⟨⟨p, h⟩, hne⟩
    obtain ⟨_, q, -, hq⟩ := hs.answered h
    exact ⟨⟨q, hq⟩, hs.no_bufferError h hc hne⟩
  · obtain ⟨rfl, -⟩ := h.quiet (by simp [hs])
    exact (returned_delivered h.inv hs).trans (returned_delivered (run_inv hbatch) hq).symm

end

def stored : Nat → Outcome String Receipt := fun k => .delivered ⟨0, k⟩

private theorem run_flushed : ∃ events s,
    Run (FlushStep "sim.segment-tiny" 1 1 stored) (produceMessages "sim.segment-tiny" 1).initial events s ∧
      s.point = .returned ∧ s.vars = 1 := by
  refine ⟨_, _, .cons (.accept rfl (by decide) ?_ rfl) <| .cons (.answer 0 ?_) <| .cons (.callback 0 (.inl rfl) ?_) <|
    .cons (.endInner rfl ?_) <| .cons (.beginFlush rfl rfl) <| .cons (.endFlush rfl ?_) <| .nil _, rfl, rfl⟩
  all_goals decide

private theorem run_batch : ∃ events p, Run (Producer.Step (produceMessages "sim.segment-tiny" 1) 10 stored)
    (produceMessages "sim.segment-tiny" 1).initial events p ∧ p.point = .returned := by
  refine ⟨_, _, .cons (.accept rfl (by decide) ?_ rfl) <| .cons (.beginFlush rfl rfl) <| .cons (.answer 0 ?_) <|
    .cons (.flushCallback 0 rfl ?_) <| .cons (.endFlush rfl (.inl ?_)) <| .nil _, rfl⟩
  all_goals decide

theorem one_at_a_time_single : ∃ s p : Producer.State Nat, s.point = .returned ∧ p.point = .returned ∧ s.vars = 1 ∧
    s.vars = p.vars := by
  obtain ⟨_, s, hrun, hs, hone⟩ := run_flushed
  obtain ⟨_, p, hbatch, hp⟩ := run_batch
  exact ⟨s, p, hs, hp, hone, (one_at_a_time hrun).2.2.2 _ _ p hbatch hs hp⟩

end Shipstream.Simulations.SegmentRoll
