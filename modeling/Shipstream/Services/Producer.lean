import Shipstream.Simulations.Producers

/-! services/producer.py: the closing line against the delivery callbacks. -/
namespace Shipstream.Services.Producer
open Kafka Kafka.Producer Transition Simulations

inductive Line where
  | error (text : String)
  | ok (msg : Receipt)
  deriving DecidableEq, Repr

def Line.text : Line → String
  | .error text => "[ERROR] Delivery failed: " ++ text
  | .ok msg => "[OK] partition=" ++ toString msg.partition ++ " offset=" ++ toString msg.offset

/-- The callback prints a line and counts nothing. -/
def deliveryReport : Except String Receipt → List Line → List Line
  | .error err, lines => lines ++ [.error err]
  | .ok msg, lines => lines ++ [.ok msg]

/-- `main` for a COUNT of orders. -/
def main (count : Nat) : Program String Receipt (List Line) where
  topic := "order.created"
  count := count
  vars := []
  onDelivery := deliveryReport
  onRefused := none
  pollsAfter i := i % 10 = 0
  flushTimesOut := false

/-- The number of orders that the line after the flush announces: COUNT, whatever was reported. -/
def published (count : Nat) (_ : Producer.State (List Line)) : Nat := count

def closingLine (count : Nat) (s : Producer.State (List Line)) : String :=
  "\nDone — " ++ toString (published count s) ++ " orders published."

def Line.isOk : Line → Bool
  | .ok _ => true
  | .error _ => false

/-- The callbacks that reported no error are the [OK] lines. -/
theorem main_counts (count : Nat) :
    Counts (main count) (fun lines => lines.countP Line.isOk) Outcome.isDelivered := by
  refine ⟨rfl, fun o lines => ?_⟩
  cases o with
  | delivered receipt => exact List.countP_append
  | failed err => exact List.countP_append
  | refused err => rfl

section Closing
variable {topic : String} {count capacity capacity' : Nat} {silent : Bool} {outcome : Nat → Outcome String Receipt}
  {events events' : List Producer.Event} {s : Producer.State (List Line)} {s' : Producer.State PaymentProducer.Vars}

/-- Over all schedules of the callbacks, the announced number is the number of callbacks without
an error, which the counter of payment_producer.py shows for the same outcomes, if and only
if no message failed. -/
theorem published_exact_iff (hrun : Run (Producer.Step (main count) capacity outcome) (main count).initial events s)
    (hp : s.point = .returned)
    (hrun' : Run (Producer.Step (PaymentProducer.main topic count silent) capacity' outcome)
      (PaymentProducer.main topic count silent).initial events' s')
    (hp' : s'.point = .returned) :
    s'.vars.delivered = s.vars.countP Line.isOk ∧
      (published count s = s.vars.countP Line.isOk ↔ ∀ k < count, (outcome k).isDelivered = true) := by
  have h := run_inv hrun
  have h' := run_inv hrun'
  have hb : s.backlog = 0 := (h.flushed hp).resolve_right Bool.false_ne_true
  have hb' : s'.backlog = 0 := (h'.flushed hp').resolve_right Bool.false_ne_true
  have hlines := (h.counter_eq (main_counts count)).trans (h.tally_all hp hb _)
  have hcounter := (h'.counter_eq (paymentProducer_counts topic count silent)).trans (h'.tally_all hp' hb' _)
  refine ⟨hcounter.trans hlines.symm, ?_⟩
  rw [hlines, published]
  have hall := List.countP_eq_length (p := fun k => (outcome k).isDelivered) (l := List.range count)
  rw [List.length_range] at hall
  rw [eq_comm]
  apply hall.trans
  simp only [List.mem_range]

end Closing

/-- One message whose report comes only in the flush. -/
theorem run_single {Vars : Type} (program : Program String Receipt Vars) (outcome : Nat → Outcome String Receipt)
    (hc : program.count = 1) (hpoll : program.pollsAfter 0 = true) (ho : (outcome 0).isRefused = false) :
    ∃ events s, Run (Producer.Step program 1 outcome) program.initial events s ∧ s.point = .returned := by
  refine ⟨_, _, .cons (.accept rfl ?_ ?_ ho) <| .cons (.beginPoll ?_) <| .cons (.endPoll ?_) <|
    .cons (.beginFlush rfl ?_) <| .cons (.answer 0 ?_) <| .cons (.flushCallback 0 rfl ?_) <|
    .cons (.endFlush rfl (.inl ?_)) <| .nil _, rfl⟩
  all_goals simp [Program.initial, Program.after, State.backlog, Point.reports, hc, hpoll]

def oneFailed : Nat → Outcome String Receipt := fun _ => .failed "Local: Message timed out"

/-- The order is lost and announced as published. -/
theorem published_lost : ¬ ∀ (count capacity : Nat) (outcome : Nat → Outcome String Receipt)
    (events : List Producer.Event) (s : Producer.State (List Line)),
      Run (Producer.Step (main count) capacity outcome) (main count).initial events s →
      s.point = .returned → published count s = s.vars.countP Line.isOk := by
  intro hall
  obtain ⟨events, s, hrun, hp⟩ := run_single (main 1) oneFailed rfl rfl rfl
  have h := run_inv hrun
  have hb : s.backlog = 0 := (h.flushed hp).resolve_right Bool.false_ne_true
  have hlines := (h.counter_eq (main_counts 1)).trans (h.tally_all hp hb _)
  have hpublished := hall 1 1 oneFailed events s hrun hp
  rw [hlines, published] at hpublished
  exact absurd hpublished (by decide)

theorem published_exact_iff_lost : ∃ events s events' s',
    Run (Producer.Step (main 1) 1 oneFailed) (main 1).initial events s ∧
    Run (Producer.Step (PaymentProducer.main "payment.processed" 1 false) 1 oneFailed)
      (PaymentProducer.main "payment.processed" 1 false).initial events' s' ∧
    s.point = .returned ∧ s'.point = .returned ∧ s'.vars.delivered = s.vars.countP Line.isOk ∧
      (published 1 s = s.vars.countP Line.isOk ↔ ∀ k < 1, (oneFailed k).isDelivered = true) := by
  obtain ⟨events, s, hrun, hp⟩ := run_single (main 1) oneFailed rfl rfl rfl
  obtain ⟨events', s', hrun', hp'⟩ := run_single (PaymentProducer.main "payment.processed" 1 false) oneFailed rfl rfl rfl
  exact ⟨events, s, events', s', hrun, hrun', hp, hp', published_exact_iff hrun hp hrun' hp'⟩

end Shipstream.Services.Producer
