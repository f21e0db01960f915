import Shipstream.Kafka.Producer

/-! The produce loops of the simulations. None of them passes a queue size, and `range(count)`
of a negative count is empty. -/
namespace Shipstream.Simulations
open Kafka Kafka.Producer Transition

namespace PaymentProducer

inductive Line where
  | error (text : String)
  | ok (msg : Receipt)
  deriving DecidableEq, Repr

def Line.text : Line → String
  | .error text => "[ERROR] " ++ text
  | .ok msg => "[OK] partition=" ++ toString msg.partition ++ " offset=" ++ toString msg.offset

/-- `delivered`, and what `on_delivery` has printed. -/
structure Vars where
  delivered : Nat
  lines : List Line
  deriving DecidableEq, Repr

def onDelivery (silent : Bool) : Except String Receipt → Vars → Vars
  | .error err, vars => { vars with lines := vars.lines ++ [.error err] }
  | .ok msg, vars =>
    { delivered := vars.delivered + 1
      lines := if silent then vars.lines else vars.lines ++ [.ok msg] }

/-- payment_producer.py `main` with its --topic, --count and --silent. -/
def main (topic : String) (count : Int) (silent : Bool) : Program String Receipt Vars where
  topic := topic
  count := count.toNat
  vars := ⟨0, []⟩
  onDelivery := onDelivery silent
  onRefused := none
  pollsAfter i := i % 20 = 0
  flushTimesOut := false

/-- The line printed after the flush. -/
def closingLine (topic : String) (count : Int) (vars : Vars) : String :=
  "\nDone — " ++ toString vars.delivered ++ "/" ++ toString count ++ " payments delivered to '" ++ topic ++ "'."

end PaymentProducer

namespace AutoCreateFootgun

/-- What `produce_to` returns. -/
structure Vars where
  delivered : Nat
  errors : List String
  deriving DecidableEq, Repr

def onDelivery : Except String Receipt → Vars → Vars
  | .error err, vars => { vars with errors := vars.errors ++ [err] }
  | .ok _, vars => { vars with delivered := vars.delivered + 1 }

/-- sim_auto_create_footgun.py `produce_to`: it never polls, and records a KafkaException of
`produce` among its errors. -/
def produceTo (topic : String) (count : Int) : Program String Receipt Vars where
  topic := topic
  count := count.toNat
  vars := ⟨0, []⟩
  onDelivery := onDelivery
  onRefused := some fun err vars => { vars with errors := vars.errors ++ [err] }
  pollsAfter _ := false
  flushTimesOut := false

end AutoCreateFootgun

namespace Idempotence

/-- What `produce_with_retries` returns. -/
structure Vars where
  confirmed : Nat
  errors : Nat
  deriving DecidableEq, Repr

def onDelivery : Except String Receipt → Vars → Vars
  | .error _, vars => { vars with errors := vars.errors + 1 }
  | .ok _, vars => { vars with confirmed := vars.confirmed + 1 }

/-- sim_idempotence.py `produce_with_retries` for a COUNT of messages: a poll after each, and
a flush that gives up after 15 seconds. -/
def produceWithRetries (count : Nat) : Program String Receipt Vars where
  topic := "sim.idempotence"
  count := count
  vars := ⟨0, 0⟩
  onDelivery := onDelivery
  onRefused := none
  pollsAfter _ := true
  flushTimesOut := true

end Idempotence

namespace LogStartOffset

def onDelivery : Except String Receipt → Nat → Nat
  | .error _, delivered => delivered
  | .ok _, delivered => delivered + 1

/-- sim_log_start_offset.py `produce_messages`. -/
def produceMessages (count : Int) : Program String Receipt Nat where
  topic := "sim.log-start-offset"
  count := count.toNat
  vars := 0
  onDelivery := onDelivery
  onRefused := none
  pollsAfter _ := false
  flushTimesOut := false

end LogStartOffset

/-! What the callbacks count. -/

theorem paymentProducer_counts (topic : String) (count : Int) (silent : Bool) :
    Counts (PaymentProducer.main topic count silent) PaymentProducer.Vars.delivered Outcome.isDelivered := by
  refine ⟨rfl, fun o vars => ?_⟩
  cases o <;> rfl

theorem produceTo_counts (topic : String) (count : Int) :
    Counts (AutoCreateFootgun.produceTo topic count) AutoCreateFootgun.Vars.delivered Outcome.isDelivered := by
  refine ⟨rfl, fun o vars => ?_⟩
  cases o <;> rfl

/-- Refusals and failed callbacks alike leave an error. -/
theorem produceTo_errors (topic : String) (count : Int) : Counts (AutoCreateFootgun.produceTo topic count)
    (fun vars => vars.errors.length) fun o => !o.isDelivered := by
  refine ⟨rfl, fun o vars => ?_⟩
  cases o with
  | delivered receipt => rfl
  | failed err => exact List.length_append
  | refused err => exact List.length_append

private theorem produceWithRetries_counts (count : Nat) :
    Counts (Idempotence.produceWithRetries count) Idempotence.Vars.confirmed Outcome.isDelivered := by
  refine ⟨rfl, fun o vars => ?_⟩
  cases o <;> rfl

private theorem produceWithRetries_errors (count : Nat) :
    Counts (Idempotence.produceWithRetries count) Idempotence.Vars.errors Outcome.isFailed := by
  refine ⟨rfl, fun o vars => ?_⟩
  cases o <;> rfl

private theorem produceMessages_counts (count : Int) :
    Counts (LogStartOffset.produceMessages count) id Outcome.isDelivered := by
  refine ⟨rfl, fun o delivered => ?_⟩
  cases o <;> rfl

section Accounting
variable {events : List Event} {capacity : Nat} {outcome : Nat → Outcome String Receipt}

/-- `produce_to` returns each of its messages either delivered or with an error. -/
theorem produceTo_total {topic : String} {count : Nat} {s : State AutoCreateFootgun.Vars}
    (hrun : Run (Step (AutoCreateFootgun.produceTo topic count) capacity outcome)
      (AutoCreateFootgun.produceTo topic count).initial events s)
    (hp : s.point = .returned) (hb : s.backlog = 0) : s.vars.delivered + s.vars.errors.length = count :=
  (run_inv hrun).counters_total (produceTo_counts topic count) (produceTo_errors topic count) hp hb

/-- `produce_with_retries` returns each of its messages either confirmed or failed. -/
theorem produceWithRetries_total {count : Nat} {s : State Idempotence.Vars}
    (hrun : Run (Step (Idempotence.produceWithRetries count) capacity outcome)
      (Idempotence.produceWithRetries count).initial events s)
    (hp : s.point = .returned) (hb : s.backlog = 0) : s.vars.confirmed + s.vars.errors = count := by
  have h := run_inv hrun
  have hconserved := h.conserved
  rw [← h.counter_eq (produceWithRetries_counts count), ← h.counter_eq (produceWithRetries_errors count), hb,
    h.unhandled rfl, h.left (.inr hp)] at hconserved
  exact hconserved

/-- The accounting of the four produce loops, in every state of every run; `range(count)` hands over
as many messages as the count says, and none for a negative one. -/
theorem accounting_conserved :
    (∀ topic (count : Int) silent,
      AccountsFor (PaymentProducer.main topic count silent) count.toNat PaymentProducer.Vars.delivered) ∧
    (∀ topic (count : Int),
      AccountsFor (AutoCreateFootgun.produceTo topic count) count.toNat AutoCreateFootgun.Vars.delivered) ∧
    (∀ count, AccountsFor (Idempotence.produceWithRetries count) count Idempotence.Vars.confirmed) ∧
    (∀ count : Int, AccountsFor (LogStartOffset.produceMessages count) count.toNat id) ∧
    (∀ (topic : String) (count capacity : Nat) (outcome : Nat → Outcome String Receipt) (events : List Event)
        (s : State AutoCreateFootgun.Vars),
      Run (Step (AutoCreateFootgun.produceTo topic count) capacity outcome)
        (AutoCreateFootgun.produceTo topic count).initial events s →
      s.point = .returned → s.backlog = 0 → s.vars.delivered + s.vars.errors.length = count) ∧
    ∀ (count capacity : Nat) (outcome : Nat → Outcome String Receipt) (events : List Event)
        (s : State Idempotence.Vars),
      Run (Step (Idempotence.produceWithRetries count) capacity outcome)
        (Idempotence.produceWithRetries count).initial events s →
      s.point = .returned → s.backlog = 0 → s.vars.confirmed + s.vars.errors = count := by
  refine ⟨fun topic count silent => ?_, fun topic count => ?_, fun count => ?_, fun count => ?_, ?_, ?_⟩
  · exact accountsFor_of_counts (paymentProducer_counts topic count silent)
  · exact accountsFor_of_counts (produceTo_counts topic count)
  · exact accountsFor_of_counts (produceWithRetries_counts count)
  · exact accountsFor_of_counts (produceMessages_counts count)
  · intro topic count capacity outcome events s hrun hp hb
    exact produceTo_total hrun hp hb
  · intro count capacity outcome events s hrun hp hb
    exact produceWithRetries_total hrun hp hb

end Accounting

/-- A refused, a failed and a delivered message, the last two called back in reverse order. -/
def mixed : Nat → Outcome String Receipt
  | 0 => .refused "Local: Unknown topic"
  | 1 => .failed "Local: Message timed out"
  | _ => .delivered ⟨0, 7⟩

private theorem run_mixed : ∃ events s, Run (Step (AutoCreateFootgun.produceTo "payment.procesed" (3 : Nat)) 10 mixed)
    (AutoCreateFootgun.produceTo "payment.procesed" (3 : Nat)).initial events s ∧ s.point = .returned ∧ s.backlog = 0 ∧
      s.vars = ⟨1, ["Local: Unknown topic", "Local: Message timed out"]⟩ := by
  refine ⟨_, _, .cons (.refuse rfl (by decide) ?_ rfl rfl) <| .cons (.accept rfl (by decide) ?_ rfl) <|
    .cons (.accept rfl (by decide) ?_ rfl) <| .cons (.beginFlush rfl rfl) <| .cons (.answer 2 ?_) <|
    .cons (.flushCallback 2 rfl ?_) <| .cons (.answer 1 ?_) <| .cons (.flushCallback 1 rfl ?_) <|
    .cons (.endFlush rfl (.inl ?_)) <| .nil _, rfl, ?_, rfl⟩
  all_goals decide

theorem accounting_conserved_mixed : ∃ events s,
    Run (Step (AutoCreateFootgun.produceTo "payment.procesed" (3 : Nat)) 10 mixed)
      (AutoCreateFootgun.produceTo "payment.procesed" (3 : Nat)).initial events s ∧ s.point = .returned ∧
      s.vars.delivered + s.tally mixed Outcome.isFailed + s.backlog = s.accepted ∧
      s.vars.delivered + s.vars.errors.length = 3 := by
  obtain ⟨events, s, hrun, hp, hb, -⟩ := run_mixed
  obtain ⟨-, hfootgun, -, -, htotal, -⟩ := accounting_conserved
  exact ⟨events, s, hrun, hp, (hfootgun _ _ _ _ _ _ hrun).1, htotal _ 3 10 mixed events s hrun hp hb⟩

/-! The local queue. -/

/-- Over all schedules of the broker neither loop overruns its queue if and only if the count
fits the queue. In a single run, whatever the count, the loop reaches its flush when every
`produce` call finds room. -/
theorem overrun_iff (topic : String) (count : Int) (silent : Bool) (capacity : Nat) :
    (NeverOverruns (PaymentProducer.main topic count silent) capacity ↔ count ≤ capacity) ∧
    (NeverOverruns (AutoCreateFootgun.produceTo topic count) capacity ↔ count ≤ capacity) ∧
    (∀ (outcome : Nat → Outcome String Receipt) (events : List Event) (s : State PaymentProducer.Vars),
      Handled (PaymentProducer.main topic count silent) outcome →
      Run (Guarded (Step (PaymentProducer.main topic count silent) capacity outcome)
        (Room (PaymentProducer.main topic count silent) capacity))
        (PaymentProducer.main topic count silent).initial events s →
      ReachesFlush (PaymentProducer.main topic count silent) capacity outcome events s) ∧
    ∀ (outcome : Nat → Outcome String Receipt) (events : List Event) (s : State AutoCreateFootgun.Vars),
      Run (Guarded (Step (AutoCreateFootgun.produceTo topic count) capacity outcome)
        (Room (AutoCreateFootgun.produceTo topic count) capacity))
        (AutoCreateFootgun.produceTo topic count).initial events s →
      ReachesFlush (AutoCreateFootgun.produceTo topic count) capacity outcome events s := by
  refine ⟨?_, ?_, ?_, ?_⟩
  · rw [neverOverruns_iff rfl]
    exact Int.toNat_le
  · rw [neverOverruns_iff rfl]
    exact Int.toNat_le
  · intro outcome events s hh hrun
    exact reachesFlush_of_room hh rfl hrun
  · intro outcome events s hrun
    exact reachesFlush_of_room (fun hr => by cases hr) rfl hrun

/-- 100001 payments against a stalled broker and the default queue. -/
theorem payments_overrun : ¬ ∀ (topic : String) (count : Int) (silent : Bool) (capacity : Nat), 0 < capacity →
    NeverOverruns (PaymentProducer.main topic count silent) capacity := by
  intro hall
  have hle := (neverOverruns_iff rfl).mp (hall "payment.processed" 100001 false 100000 (by decide))
  exact absurd hle (by decide)

end Shipstream.Simulations
