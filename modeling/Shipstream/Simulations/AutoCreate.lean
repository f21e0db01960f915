import Shipstream.Simulations.Producers

/-! simulations/sim_auto_create_footgun.py: the two rounds of `main` against the broker's topics. -/
namespace Shipstream.Simulations.AutoCreateFootgun
open Kafka Transition

def correctTopic : String := "payment.processed"

def typoTopic : String := "payment.procesed"

inductive Round where
  | one
  | two
  deriving DecidableEq, Repr

/-- The value that a round sets for `auto_create_topics_enabled`. -/
def Round.setting : Round → Bool
  | .one => true
  | .two => false

/-- The topics that exist, each with the payments of this run that it holds, by round and number. -/
structure Broker where
  autoCreate : Bool
  topics : String → Option (List (Round × Nat))

def Broker.setTopic (b : Broker) (topic : String) (log : Option (List (Round × Nat))) : Broker :=
  { b with topics := Function.update b.topics topic log }

/-- Where `main` is. -/
inductive Main where
  | config (r : Round)
  | produce (r : Round)
  | delete
  | restore
  | done
  deriving DecidableEq, Repr

/-- What comes after the `produce_to` of a round. -/
def Main.after : Round → Main
  | .one => .config .two
  | .two => .delete

/-- The cleanup has gone past `rpk topic delete`. -/
def Main.deleted : Main → Bool
  | .restore | .done => true
  | _ => false

/-- The `produce_to` of a round has been called. -/
def Main.begun (r : Round) : Main → Bool
  | .config .one => false
  | .config .two | .produce .one => r = .one
  | _ => true

/-- The call of `main` in either round. -/
def call (count : Int) (_ : Round) : Producer.Program String Producer.Receipt Vars := produceTo typoTopic count

/-- A payment under way to the broker, for a topic. -/
structure Request where
  round : Round
  number : Nat
  topic : String
  deriving DecidableEq, Repr

/-- What the broker answers the client of a round: that a payment is stored, or that it does not know
the topic. -/
inductive Response where
  | stored (round : Round) (number : Nat)
  | unknownTopic (round : Round)
  deriving DecidableEq, Repr

/-- `began` is the broker as the `produce_to` of a round began. Requests and responses stay: either
may be lost, late or repeated. -/
structure State where
  broker : Broker
  began : Round → Broker
  calls : Round → Producer.State Vars
  requests : List Request
  responses : List Response
  main : Main
  raised : Bool

/-- `main` begins with some topics there, which hold no payment of this run. -/
def initial (count : Int) (autoCreate : Bool) (present : String → Bool) : State :=
  let broker : Broker := ⟨autoCreate, fun topic => if present topic then some [] else none⟩
  ⟨broker, fun _ => broker, fun r => (call count r).initial, [], [], .config .one, false⟩

/-- The payment is in the topic with the typo. -/
def State.Stored (s : State) (r : Round) (k : Nat) : Prop :=
  ∃ log, s.broker.topics typoTopic = some log ∧ (r, k) ∈ log

/-- The client reports a payment as delivered, or names an unknown topic, only on a response of the
broker. Other errors, such as a time-out, may come at any time. -/
def State.Responded (unknown : String → Prop) (s : State) (r : Round) (k : Nat) :
    Producer.Outcome String Producer.Receipt → Prop
  | .delivered _ => .stored r k ∈ s.responses
  | .failed err | .refused err => unknown err → .unknownTopic r ∈ s.responses

inductive Event where
  | config (r : Round)
  | call (r : Round) (ev : Producer.Event)
  | endCall (r : Round)
  | create (r : Round)
  | missing (r : Round)
  | send (r : Round) (k : Nat)
  | store (request : Request)
  | bounce (request : Request)
  | delete
  | restore
  | raise
  deriving DecidableEq, Repr

/-- `rpk` does not tell `main` whether it failed, and an exception ends `main` wherever it is. A
metadata request of the client creates its topic where the broker does so, and is answered
with an error where it does not; a payment not yet reported may be sent at any time and again;
the broker stores a request in the topic that it names and then responds, or responds that
there is no such topic. -/
inductive Step (count : Int) (capacity : Nat) (unknown : String → Prop)
    (outcome : Round → Nat → Producer.Outcome String Producer.Receipt) : State → Event → State → Prop where
  | config {s : State} (r : Round) (b : Broker) (hm : s.main = .config r) (hr : s.raised = false)
      (hb : b = s.broker ∨ b = { s.broker with autoCreate := r.setting }) :
      Step count capacity unknown outcome s (.config r)
        { s with broker := b, began := Function.update s.began r b, main := .produce r }
  | call {s : State} (r : Round) (ev : Producer.Event) (p : Producer.State Vars) (hm : s.main = .produce r)
      (hr : s.raised = false) (hp : Producer.Step (call count r) capacity (outcome r) (s.calls r) ev p)
      (hk : ∀ k, ev = .answer k ∨ ev = .refuse ∧ k = (s.calls r).next → s.Responded unknown r k (outcome r k)) :
      Step count capacity unknown outcome s (.call r ev) { s with calls := Function.update s.calls r p }
  | endCall {s : State} (r : Round) (hm : s.main = .produce r) (hr : s.raised = false)
      (hp : (s.calls r).point = .returned) :
      Step count capacity unknown outcome s (.endCall r) { s with main := .after r }
  | create {s : State} (r : Round) (hm : s.main = .produce r) (ha : s.broker.autoCreate = true)
      (ht : s.broker.topics (call count r).topic = none) :
      Step count capacity unknown outcome s (.create r)
        { s with broker := s.broker.setTopic (call count r).topic (some []) }
  | missing {s : State} (r : Round) (hm : s.main = .produce r) (ha : s.broker.autoCreate = false)
      (ht : s.broker.topics (call count r).topic = none) :
      Step count capacity unknown outcome s (.missing r) { s with responses := s.responses ++ [.unknownTopic r] }
  | send {s : State} (r : Round) (k : Nat) (hk : k ∈ (s.calls r).waiting) :
      Step count capacity unknown outcome s (.send r k)
        { s with requests := s.requests ++ [⟨r, k, (call count r).topic⟩] }
  | store {s : State} (request : Request) (log : List (Round × Nat)) (hq : request ∈ s.requests)
      (ht : s.broker.topics request.topic = some log) :
      Step count capacity unknown outcome s (.store request) { s with
        broker := s.broker.setTopic request.topic (some (log ++ [(request.round, request.number)]))
        responses := s.responses ++ [.stored request.round request.number] }
  | bounce {s : State} (request : Request) (hq : request ∈ s.requests)
      (ht : s.broker.topics request.topic = none) :
      Step count capacity unknown outcome s (.bounce request)
        { s with responses := s.responses ++ [.unknownTopic request.round] }
  | delete {s : State} (b : Broker) (hm : s.main = .delete) (hr : s.raised = false)
      (hb : b = s.broker ∨ b = s.broker.setTopic typoTopic none) :
      Step count capacity unknown outcome s .delete { s with broker := b, main := .restore }
  | restore {s : State} (b : Broker) (hm : s.main = .restore) (hr : s.raised = false)
      (hb : b = s.broker ∨ b = { s.broker with autoCreate := true }) :
      Step count capacity unknown outcome s .restore { s with broker := b, main := .done }
  | raise {s : State} (hm : s.main ≠ .done) (hr : s.raised = false) :
      Step count capacity unknown outcome s .raise { s with raised := true }

/-! What `main` reports of round 2. -/

inductive Line where
  | result (delivered errors : Nat)
  | errorsReceived
  | error (text : String)
  | noErrors
  deriving DecidableEq, Repr

def Line.text : Line → String
  | .result delivered errors => "[result]  delivered=" ++ toString delivered ++ "  errors=" ++ toString errors
  | .errorsReceived => "          Errors received:"
  | .error text => "          ERROR: " ++ text
  | .noErrors => "          (no errors — topic already existed from round 1)"

/-- The lines after round 2, where `errors` is `set(errors2)` in the order of its iteration. -/
def round2 (second : Vars) (errors : List String) : List Line :=
  .result second.delivered second.errors.length ::
    if second.errors ≠ [] then .errorsReceived :: errors.map .error else [.noErrors]

section
variable {count : Int} {capacity : Nat} {unknown : String → Prop}
  {outcome : Round → Nat → Producer.Outcome String Producer.Receipt} {s t : State} {ev : Event}
  {autoCreate : Bool} {present : String → Bool} {events : List Event} {r : Round} {k : Nat}

private theorem call_topic (count : Int) (r : Round) : (call count r).topic = typoTopic := rfl

@[simp] theorem Broker.setTopic_same (b : Broker) (topic : String) (log : Option (List (Round × Nat))) :
    (b.setTopic topic log).topics topic = log := Function.update_self _ _ _

private theorem Broker.setTopic_of_ne (b : Broker) {topic other : String} (h : other ≠ topic)
    (log : Option (List (Round × Nat))) : (b.setTopic topic log).topics other = b.topics other :=
  Function.update_of_ne h _ _

/-- Either call is a run of the produce loop. -/
theorem run_calls (hrun : Run (Step count capacity unknown outcome) (initial count autoCreate present) events s)
    (r : Round) : ∃ events, Run (Producer.Step (call count r) capacity (outcome r)) (call count r).initial
      events (s.calls r) := by
  refine hrun.project (State.calls · r) fun s ev t hs => ?_
  cases hs with
  | call r' ev p hm hr hp hk =>
    dsimp only
    by_cases he : r = r'
    · subst he
      rw [Function.update_self]
      exact .inr ⟨ev, hp⟩
    · exact .inl (Function.update_of_ne he _ _)
  | _ => exact .inl rfl

theorem run_inv (hrun : Run (Step count capacity unknown outcome) (initial count autoCreate present) events s)
    (r : Round) : Producer.Inv (call count r) (outcome r) (s.calls r) := by
  obtain ⟨_, h⟩ := run_calls hrun r
  exact Producer.run_inv h

/-! What a step does to `main`. -/

theorem Step.deleted (hs : Step count capacity unknown outcome s ev t) (h : t.main.deleted = false) :
    s.main.deleted = false := by
  cases hs with
  | config r b hm | endCall r hm | delete b hm =>
    rw [hm]
    rfl
  | restore => cases h
  | call | create | missing | send | store | bounce | raise => exact h

private theorem Step.begun (hs : Step count capacity unknown outcome s ev t) (h : s.main.begun r = true) :
    t.main.begun r = true := by
  cases hs with
  | config r' b hm =>
    rw [hm] at h
    cases r <;> cases r' <;> first | rfl | cases h
  | endCall r' hm =>
    rw [hm] at h
    cases r <;> cases r' <;> first | rfl | cases h
  | delete | restore => cases r <;> rfl
  | call | create | missing | send | store | bounce | raise => exact h

/-- A call begins with the setting of its round, and nothing else changes the broker it began with. -/
theorem Step.began (hs : Step count capacity unknown outcome s ev t) (r : Round) :
    t.began r = s.began r ∧ (t.main.begun r = true → s.main.begun r = true) ∨
      s.main = .config r ∧ t.began r = t.broker ∧ t.broker.topics = s.broker.topics ∧ t.calls = s.calls ∧
        t.responses = s.responses := by
  cases hs with
  | config r' b hm hr hb =>
    by_cases he : r = r'
    · subst he
      right
      refine ⟨hm, Function.update_self _ _ _, ?_, rfl, rfl⟩
      rcases hb with rfl | rfl <;> rfl
    · refine .inl ⟨Function.update_of_ne he _ _, fun h => ?_⟩
      rw [hm]
      cases r <;> cases r' <;> first | exact absurd rfl he | exact h
  | endCall r' hm =>
    refine .inl ⟨rfl, fun h => ?_⟩
    rw [hm]
    cases r <;> cases r' <;> exact h
  | delete b hm | restore b hm =>
    refine .inl ⟨rfl, fun _ => ?_⟩
    rw [hm]
    rfl
  | call | create | missing | send | store | bounce | raise => exact .inl ⟨rfl, id⟩

/-- A call that has not begun has made no step. -/
theorem Step.fresh (hs : Step count capacity unknown outcome s ev t) (h : t.main.begun r = false) :
    t.calls r = s.calls r := by
  cases hs with
  | call r' ev p hm =>
    dsimp only at h ⊢
    refine Function.update_of_ne ?_ _ _
    rintro rfl
    rw [hm] at h
    cases r <;> cases h
  | _ => rfl

/-! What a step does to the broker, and what the broker tells. -/

/-- The requests under way are of calls that have begun, and for the topic with the typo; what the
other topics hold has not changed; until the cleanup, a payment said to be stored is, and a
topic said to be unknown did not exist as the call began. -/
structure Wire (count : Int) (present : String → Bool) (s : State) : Prop where
  fresh : ∀ r, s.main.begun r = false → s.calls r = (call count r).initial
  requests : ∀ q ∈ s.requests, q.topic = typoTopic ∧ s.main.begun q.round = true
  others : ∀ topic, topic ≠ typoTopic → s.broker.topics topic = if present topic then some [] else none
  kept : ∀ r, s.main.begun r = true → s.main.deleted = false → (s.began r).topics typoTopic ≠ none →
    s.broker.topics typoTopic ≠ none
  stored : s.main.deleted = false → ∀ r k, .stored r k ∈ s.responses → s.Stored r k
  begun : ∀ r, .unknownTopic r ∈ s.responses → s.main.begun r = true
  unknown : s.main.deleted = false → ∀ r, .unknownTopic r ∈ s.responses → (s.began r).topics typoTopic = none

/-- Until the cleanup the topic keeps what it holds. -/
theorem Step.stored (hs : Step count capacity unknown outcome s ev t) (hd : t.main.deleted = false)
    (h : s.Stored r k) : t.Stored r k := by
  obtain ⟨log, hlog, hmem⟩ := h
  cases hs with
  | config r b hm hr hb => rcases hb with rfl | rfl <;> exact ⟨log, hlog, hmem⟩
  | create r hm ha ht =>
    rw [call_topic, hlog] at ht
    cases ht
  | store q log' hq ht =>
    by_cases hqt : q.topic = typoTopic
    · rw [hqt, hlog] at ht
      cases ht
      refine ⟨log ++ [(q.round, q.number)], ?_, List.mem_append_left _ hmem⟩
      rw [hqt]
      exact Broker.setTopic_same _ _ _
    · exact ⟨log, (Broker.setTopic_of_ne _ (Ne.symm hqt) _).trans hlog, hmem⟩
  | delete | restore => cases hd
  | call | endCall | missing | send | bounce | raise => exact ⟨log, hlog, hmem⟩

/-- Until the cleanup the topic stays where it is. -/
theorem Step.kept (hs : Step count capacity unknown outcome s ev t) (hd : t.main.deleted = false)
    (h : s.broker.topics typoTopic ≠ none) : t.broker.topics typoTopic ≠ none := by
  cases hs with
  | config r b hm hr hb => rcases hb with rfl | rfl <;> exact h
  | create r hm ha ht => exact absurd (call_topic count r ▸ ht) h
  | store q log hq ht =>
    by_cases hqt : q.topic = typoTopic
    · rw [hqt]
      dsimp only
      rw [Broker.setTopic_same]
      exact Option.some_ne_none _
    · dsimp only
      rwa [Broker.setTopic_of_ne _ (Ne.symm hqt)]
  | delete | restore => cases hd
  | call | endCall | missing | send | bounce | raise => exact h

/-- Only the topics that requests name are written, and those that a client asks for created. -/
theorem Step.others (hs : Step count capacity unknown outcome s ev t)
    (hq : ∀ q ∈ s.requests, q.topic = typoTopic) {topic : String} (hne : topic ≠ typoTopic) :
    t.broker.topics topic = s.broker.topics topic := by
  cases hs with
  | config r b hm hr hb | restore b hm hr hb => rcases hb with rfl | rfl <;> rfl
  | delete b hm hr hb =>
    rcases hb with rfl | rfl
    · rfl
    · exact Broker.setTopic_of_ne _ hne _
  | create r => exact Broker.setTopic_of_ne _ (call_topic count r ▸ hne) _
  | store q log hmem => exact Broker.setTopic_of_ne _ (hq q hmem ▸ hne) _
  | call | endCall | missing | send | bounce | raise => rfl

/-- A response is an old one, or tells of the payment that was just stored, or of the topic that a
call that has begun does not find. -/
theorem Step.response (hs : Step count capacity unknown outcome s ev t) (h : Wire count present s) {x : Response}
    (hx : x ∈ t.responses) : x ∈ s.responses ∨ (∃ r k, x = .stored r k ∧ t.Stored r k) ∨
      ∃ r, x = .unknownTopic r ∧ s.main.begun r = true ∧ s.broker.topics typoTopic = none ∧ t.began = s.began ∧
        t.main = s.main := by
  cases hs with
  | missing r hm ha ht =>
    rcases List.mem_append.mp hx with hx | hx
    · exact .inl hx
    · refine .inr (.inr ⟨r, List.mem_singleton.mp hx, ?_, call_topic count r ▸ ht, rfl, rfl⟩)
      rw [hm]
      cases r <;> rfl
  | store q log hq ht =>
    rcases List.mem_append.mp hx with hx | hx
    · exact .inl hx
    · refine .inr (.inl ⟨q.round, q.number, List.mem_singleton.mp hx, log ++ [(q.round, q.number)], ?_, by simp⟩)
      rw [(h.requests q hq).1]
      exact Broker.setTopic_same _ _ _
  | bounce q hq ht =>
    rcases List.mem_append.mp hx with hx | hx
    · exact .inl hx
    · obtain ⟨htopic, hbegun⟩ := h.requests q hq
      exact .inr (.inr ⟨q.round, List.mem_singleton.mp hx, hbegun, htopic ▸ ht, rfl, rfl⟩)
  | _ => exact .inl hx

theorem Step.requests (hs : Step count capacity unknown outcome s ev t) (h : Wire count present s) :
    ∀ q ∈ t.requests, q.topic = typoTopic ∧ t.main.begun q.round = true := by
  have hold : ∀ q ∈ s.requests, q.topic = typoTopic ∧ t.main.begun q.round = true := fun q hq =>
    ⟨(h.requests q hq).1, hs.begun (h.requests q hq).2⟩
  cases hs with
  | send r k hk =>
    intro q hq
    rcases List.mem_append.mp hq with hq | hq
    · exact hold q hq
    · cases List.mem_singleton.mp hq
      refine ⟨call_topic count r, ?_⟩
      by_contra hb
      rw [h.fresh r (Bool.eq_false_of_not_eq_true hb)] at hk
      cases hk
  | _ => exact hold

theorem Step.wire (hs : Step count capacity unknown outcome s ev t) (h : Wire count present s) :
    Wire count present t where
  fresh r hb := (hs.fresh hb).trans (h.fresh r (by
    by_contra hn
    rw [hs.begun (Bool.eq_true_of_not_eq_false hn)] at hb
    cases hb))
  requests := hs.requests h
  others topic hne := (hs.others (fun q hq => (h.requests q hq).1) hne).trans (h.others topic hne)
  kept r hb hd hbegan := by
    rcases hs.began r with ⟨hsame, hsb⟩ | ⟨-, hsame, -⟩
    · rw [hsame] at hbegan
      exact hs.kept hd (h.kept r (hsb hb) (hs.deleted hd) hbegan)
    · rwa [hsame] at hbegan
  stored hd r k hx := by
    rcases hs.response h hx with hx | ⟨r', k', hx, hstored⟩ | ⟨r', hx, -⟩
    · exact hs.stored hd (h.stored (hs.deleted hd) r k hx)
    · cases hx
      exact hstored
    · cases hx
  begun r hx := by
    rcases hs.response h hx with hx | ⟨r', k', hx, -⟩ | ⟨r', hx, hb, -⟩
    · exact hs.begun (h.begun r hx)
    · cases hx
    · cases hx
      exact hs.begun hb
  unknown hd r hx := by
    rcases hs.response h hx with hx | ⟨r', k', hx, -⟩ | ⟨r', hx, hb, hnone, hsame, -⟩
    · rcases hs.began r with ⟨hsame, -⟩ | ⟨hm, -⟩
      · rw [hsame]
        exact h.unknown (hs.deleted hd) r hx
      · have hb := h.begun r hx
        rw [hm] at hb
        cases r <;> cases hb
    · cases hx
    · cases hx
      rw [hsame]
      by_contra hsome
      exact h.kept r hb (hs.deleted hd) hsome hnone

private theorem initial_wire : Wire count present (initial count autoCreate present) where
  fresh _ _ := rfl
  requests q hq := by cases hq
  others _ _ := rfl
  kept r hb := by cases r <;> cases hb
  stored _ r k hx := by cases hx
  begun r hx := by cases hx
  unknown _ r hx := by cases hx

/-! What the clients know. -/

/-- A client learns of a payment only in its own call, and the broker has responded. -/
theorem Step.reported (hs : Step count capacity unknown outcome s ev t) (hk : Producer.Reported (t.calls r) k) :
    Producer.Reported (s.calls r) k ∨ s.main = .produce r ∧ s.Responded unknown r k (outcome r k) ∧
      t.responses = s.responses ∧ t.began = s.began := by
  cases hs with
  | call r' ev p hm hr hp hresponded =>
    dsimp only at hk ⊢
    by_cases he : r = r'
    · subst he
      rw [Function.update_self] at hk
      rcases hp.reported hk with hk | hk
      · exact .inl hk
      · exact .inr ⟨hm, hresponded k hk, rfl, rfl⟩
    · rw [Function.update_of_ne he] at hk
      exact .inl hk
  | _ => exact .inl hk

theorem Step.responses (hs : Step count capacity unknown outcome s ev t) {x : Response} (hx : x ∈ s.responses) :
    x ∈ t.responses := by
  cases hs with
  | missing | store | bounce => exact List.mem_append_left _ hx
  | _ => exact hx

/-- Where topics are not created, the topic stays away. -/
theorem Step.absent (hs : Step count capacity unknown outcome s ev t) (hw : Wire count present s)
    (hb : s.main.begun .two = true) (hd : t.main.deleted = false)
    (h : s.broker.topics typoTopic = none ∧ s.broker.autoCreate = false) :
    t.broker.topics typoTopic = none ∧ t.broker.autoCreate = false := by
  cases hs with
  | config r b hm =>
    rw [hm] at hb
    cases r <;> cases hb
  | create r hm ha ht => exact absurd (ha.symm.trans h.2) (by decide)
  | store q log hq ht =>
    rw [(hw.requests q hq).1, h.1] at ht
    cases ht
  | delete | restore => cases hd
  | call | endCall | missing | send | bounce | raise => exact h

/-- The topic did not exist as round 2 began, and the broker did not create topics. -/
def State.Absent (s : State) : Prop :=
  (s.began .two).topics typoTopic = none ∧ (s.began .two).autoCreate = false

/-- What the clients report has been responded, and what round 2 finds is what round 1 has left. -/
structure Inv (count : Int) (unknown : String → Prop)
    (outcome : Round → Nat → Producer.Outcome String Producer.Receipt) (present : String → Bool) (s : State) :
    Prop where
  wire : Wire count present s
  delivered : ∀ r k, Producer.Reported (s.calls r) k → (outcome r k).isDelivered = true → .stored r k ∈ s.responses
  errors : ∀ r k err, Producer.Reported (s.calls r) k → outcome r k = .failed err ∨ outcome r k = .refused err →
    unknown err → (s.began r).topics typoTopic = none
  existed : s.main.begun .two = true → ∀ k, Producer.Reported (s.calls .one) k →
    (outcome .one k).isDelivered = true → (s.began .two).topics typoTopic ≠ none
  absent : s.main.begun .two = true → s.main.deleted = false → s.Absent →
    s.broker.topics typoTopic = none ∧ s.broker.autoCreate = false
  silent : s.main.begun .two = true → s.Absent → ∀ k, Producer.Reported (s.calls .two) k →
    (outcome .two k).isDelivered = false

theorem State.Responded.stored {o : Producer.Outcome String Producer.Receipt} (h : s.Responded unknown r k o)
    (ho : o.isDelivered = true) : .stored r k ∈ s.responses := by
  cases o with
  | delivered receipt => exact h
  | failed err | refused err => cases ho

private theorem State.Responded.unknownTopic {o : Producer.Outcome String Producer.Receipt} {err : String}
    (h : s.Responded unknown r k o) (ho : o = .failed err ∨ o = .refused err) (he : unknown err) :
    .unknownTopic r ∈ s.responses := by
  rcases ho with rfl | rfl <;> exact h he

private theorem Wire.not_reported (h : Wire count present s) (hb : s.main.begun r = false) :
    ¬ Producer.Reported (s.calls r) k := by
  rw [h.fresh r hb]
  exact Producer.not_reported_initial

private theorem config_not_begun (hm : s.main = .config r) : s.main.begun r = false := by
  rw [hm]
  cases r <;> rfl

private theorem produce_not_deleted (hm : s.main = .produce r) : s.main.deleted = false := by
  rw [hm]
  rfl

/-- A delivered payment is in the topic until the cleanup. -/
theorem Inv.stored (h : Inv count unknown outcome present s) (hd : s.main.deleted = false)
    (hk : Producer.Reported (s.calls r) k) (ho : (outcome r k).isDelivered = true) : s.Stored r k :=
  h.wire.stored hd r k (h.delivered r k hk ho)

theorem Step.inv (hs : Step count capacity unknown outcome s ev t) (h : Inv count unknown outcome present s) :
    Inv count unknown outcome present t := by
  refine ⟨hs.wire h.wire, fun r k hk ho => ?_, fun r k err hk ho he => ?_, fun hb k hk ho => ?_, fun hb hd ha => ?_,
    fun hb ha k hk => ?_⟩
  · rcases hs.reported hk with hk | ⟨-, hresponded, -⟩
    · exact hs.responses (h.delivered r k hk ho)
    · exact hs.responses (hresponded.stored ho)
  · rcases hs.reported hk with hk | ⟨hm, hresponded, -, hbegan⟩
    · rcases hs.began r with ⟨hbegan, -⟩ | ⟨hm, -⟩
      · rw [hbegan]
        exact h.errors r k err hk ho he
      · exact absurd hk (h.wire.not_reported (config_not_begun hm))
    · rw [hbegan]
      exact h.wire.unknown (produce_not_deleted hm) r (hresponded.unknownTopic ho he)
  · rcases hs.began .two with ⟨hbegan, hsb⟩ | ⟨hm, hbegan, htopics, hcalls, -⟩
    · rcases hs.reported hk with hk | ⟨hm, -⟩
      · rw [hbegan]
        exact h.existed (hsb hb) k hk ho
      · have hone := hsb hb
        rw [hm] at hone
        cases hone
    · rw [hcalls] at hk
      have hd : s.main.deleted = false := by
        rw [hm]
        rfl
      obtain ⟨log, hlog, -⟩ := h.stored hd hk ho
      rw [hbegan, htopics, hlog]
      exact Option.some_ne_none log
  · rcases hs.began .two with ⟨hbegan, hsb⟩ | ⟨-, hbegan, -⟩
    · have ha' := ha
      rw [State.Absent, hbegan] at ha'
      exact hs.absent h.wire (hsb hb) hd (h.absent (hsb hb) (hs.deleted hd) ha')
    · rw [State.Absent, hbegan] at ha
      exact ha
  · rcases hs.began .two with ⟨hbegan, hsb⟩ | ⟨hm, -, -, hcalls, -⟩
    · have ha' := ha
      rw [State.Absent, hbegan] at ha'
      rcases hs.reported hk with hk | ⟨hm, hresponded, -⟩
      · exact h.silent (hsb hb) ha' k hk
      · by_contra ho
        have hd := produce_not_deleted hm
        obtain ⟨log, hlog, -⟩ := h.wire.stored hd _ _ (hresponded.stored (Bool.eq_true_of_not_eq_false ho))
        rw [(h.absent (hsb hb) hd ha').1] at hlog
        cases hlog
    · rw [hcalls] at hk
      exact absurd hk (h.wire.not_reported (config_not_begun hm))

theorem initial_inv : Inv count unknown outcome present (initial count autoCreate present) := by
  have hnone : ∀ r k, ¬ Producer.Reported ((initial count autoCreate present).calls r) k := fun _ _ =>
    Producer.not_reported_initial
  exact ⟨initial_wire, fun r k hk => absurd hk (hnone r k), fun r k _ hk => absurd hk (hnone r k),
    (by cases ·), (by cases ·), (by cases ·)⟩

/-- What the errors of a call say: each is the error of a settled payment. -/
theorem errors_settled {p : Producer.State Vars} {o : Nat → Producer.Outcome String Producer.Receipt}
    (h : Producer.Inv (call count r) o p) {err : String} (he : err ∈ p.vars.errors) :
    ∃ k ∈ p.settled, o k = .failed err ∨ o k = .refused err := by
  have hfold : ∀ settled : List Nat, err ∈ (settled.foldl (fun vars k => (call count r).handle (o k) vars)
      (call count r).vars).errors → ∃ k ∈ settled, o k = .failed err ∨ o k = .refused err := by
    intro settled
    induction settled using List.reverseRecOn with
    | nil => exact fun he => by cases he
    | append_singleton settled k ih =>
      intro he
      rw [List.foldl_append, List.foldl_cons, List.foldl_nil] at he
      have hearlier : (∃ j ∈ settled, o j = .failed err ∨ o j = .refused err) →
          ∃ j ∈ settled ++ [k], o j = .failed err ∨ o j = .refused err := fun ⟨j, hj, ho⟩ =>
        ⟨j, List.mem_append_left _ hj, ho⟩
      cases ho : o k with
      | delivered receipt =>
        rw [ho] at he
        exact hearlier (ih he)
      | failed err' =>
        rw [ho] at he
        rcases List.mem_append.mp he with he | he
        · exact hearlier (ih he)
        · exact ⟨k, by simp, .inl (List.mem_singleton.mp he ▸ ho)⟩
      | refused err' =>
        rw [ho] at he
        rcases List.mem_append.mp he with he | he
        · exact hearlier (ih he)
        · exact ⟨k, by simp, .inr (List.mem_singleton.mp he ▸ ho)⟩
  rw [h.vars] at he
  exact hfold p.settled he

/-- The payments that a call counts as delivered are settled as delivered. -/
theorem delivered_eq {p : Producer.State Vars} {o : Nat → Producer.Outcome String Producer.Receipt}
    (h : Producer.Inv (call count r) o p) :
    p.vars.delivered = (p.settled.filter fun k => (o k).isDelivered).length := by
  rw [h.counter_eq (produceTo_counts typoTopic count), Producer.State.tally, List.countP_eq_length_filter]

private theorem exists_delivered {p : Producer.State Vars} {o : Nat → Producer.Outcome String Producer.Receipt}
    (h : Producer.Inv (call count r) o p) (hpos : 0 < p.vars.delivered) :
    ∃ k, Producer.Reported p k ∧ (o k).isDelivered = true := by
  rw [delivered_eq h] at hpos
  obtain ⟨k, hk⟩ := List.exists_mem_of_length_pos hpos
  obtain ⟨hk, ho⟩ := List.mem_filter.mp hk
  exact ⟨k, .inr (.inr hk), ho⟩

/-- Until the cleanup, and also when an exception leaves it out, every payment counted as delivered
is in the topic with the typo, and no other topic holds any. -/
theorem delivered_misplaced
    (hrun : Run (Step count capacity unknown outcome) (initial count autoCreate present) events s) :
    (∀ topic log, topic ≠ typoTopic → s.broker.topics topic = some log → log = []) ∧
      (s.main.deleted = false → ∀ r, 0 < (s.calls r).vars.delivered → ∃ log,
        s.broker.topics typoTopic = some log ∧ (s.calls r).vars.delivered ≤ log.countP fun x => x.1 = r) := by
  have h : Inv count unknown outcome present s := hrun.invariant _ (fun _ _ _ => Step.inv) initial_inv
  refine ⟨fun topic log hne hlog => ?_, fun hd r hpos => ?_⟩
  · rw [h.wire.others topic hne] at hlog
    simp only [Option.ite_none_right_eq_some, Option.some.injEq] at hlog
    exact hlog.2.symm
  · have hinv := run_inv hrun r
    obtain ⟨k, hk, ho⟩ := exists_delivered hinv hpos
    obtain ⟨log, hlog, -⟩ := h.stored hd hk ho
    refine ⟨log, hlog, ?_⟩
    have hsub : ((s.calls r).settled.filter fun k => (outcome r k).isDelivered).map (r, ·) ⊆
        log.filter fun x => x.1 = r := by
      intro x hx
      obtain ⟨j, hj, rfl⟩ := List.mem_map.mp hx
      obtain ⟨hj, ho⟩ := List.mem_filter.mp hj
      obtain ⟨log', hlog', hmem⟩ := h.stored hd (.inr (.inr hj)) ho
      obtain rfl : log' = log := Option.some.inj (hlog'.symm.trans hlog)
      exact List.mem_filter.mpr ⟨hmem, decide_eq_true rfl⟩
    have hnodup : (((s.calls r).settled.filter fun k => (outcome r k).isDelivered).map (r, ·)).Nodup :=
      (hinv.settled_nodup.filter _).map fun j k he => (Prod.mk.inj he).2
    have hlength := (List.subperm_of_subset hnodup hsub).length_le
    rwa [List.length_map, ← delivered_eq hinv, ← List.countP_eq_length_filter] at hlength

/-- Once round 1 has delivered a payment, round 2 is told of no unknown topic. Where the topic did not
exist as round 2 began and the broker did not create topics, round 2 delivers nothing and returns
an error for each payment; so with auto-create off as it began, and at least one payment, the line
without errors means that the topic was there. -/
theorem second_round
    (hrun : Run (Step count capacity unknown outcome) (initial count autoCreate present) events s)
    (hb : s.main.begun .two = true) :
    (0 < (s.calls .one).vars.delivered → ∀ err ∈ (s.calls .two).vars.errors, ¬ unknown err) ∧
      (s.Absent → (s.calls .two).vars.delivered = 0 ∧
        ((s.calls .two).point = .returned → (s.calls .two).vars.errors.length = count.toNat)) ∧
      ∀ errors, (s.calls .two).point = .returned → 0 < count → (s.began .two).autoCreate = false →
        .noErrors ∈ round2 (s.calls .two).vars errors → (s.began .two).topics typoTopic ≠ none := by
  have h : Inv count unknown outcome present s := hrun.invariant _ (fun _ _ _ => Step.inv) initial_inv
  have hinv := run_inv hrun .two
  have habsent : s.Absent → (s.calls .two).vars.delivered = 0 ∧
      ((s.calls .two).point = .returned → (s.calls .two).vars.errors.length = count.toNat) := by
    intro ha
    have hzero : (s.calls .two).vars.delivered = 0 := by
      by_contra hne
      obtain ⟨k, hk, ho⟩ := exists_delivered hinv (Nat.pos_of_ne_zero hne)
      rw [h.silent hb ha k hk] at ho
      cases ho
    refine ⟨hzero, fun hp => ?_⟩
    have htotal := hinv.counters_total (produceTo_counts typoTopic count) (produceTo_errors typoTopic count) hp
      ((hinv.flushed hp).resolve_right Bool.false_ne_true)
    rwa [hzero, Nat.zero_add] at htotal
  refine ⟨fun hpos err he hu => ?_, habsent, fun errors hp hcount hoff hline hnone => ?_⟩
  · obtain ⟨k, hk, ho⟩ := exists_delivered (run_inv hrun .one) hpos
    obtain ⟨j, hj, he⟩ := errors_settled hinv he
    exact h.existed hb k hk ho (h.errors .two j err (.inr (.inr hj)) he hu)
  · have hlength := (habsent ⟨hnone, hoff⟩).2 hp
    have hempty : (s.calls .two).vars.errors = [] := by
      by_contra hne
      simp [round2, hne] at hline
    rw [hempty, List.length_nil] at hlength
    omega

end

/-- Round 1 delivers its payment and round 2 times out. -/
def misplaced (r : Round) (_ : Nat) : Producer.Outcome String Producer.Receipt :=
  match r with
  | .one => .delivered ⟨0, 0⟩
  | .two => .failed "Local: Message timed out"

/-- What librdkafka says of a topic that the broker does not know. -/
def unknownTopic (err : String) : Prop := err = "Broker: Unknown topic or partition"

private theorem run_misplaced : ∃ events s, Run (Step 1 10 unknownTopic misplaced)
    (initial 1 false (· == correctTopic)) events s ∧ s.main = .delete ∧
      (s.calls .one).vars.delivered = 1 ∧ (s.calls .two).vars.errors = ["Local: Message timed out"] := by
  refine ⟨_, _, .cons (.config .one _ rfl rfl (.inr rfl)) <|
    .cons (.call .one .accept _ rfl rfl (.accept rfl (by decide) (by decide) rfl) (by simp)) <|
    .cons (.create .one rfl rfl rfl) <| .cons (.send .one 0 (by decide)) <|
    .cons (.store ⟨.one, 0, typoTopic⟩ [] List.mem_cons_self (Broker.setTopic_same _ _ _)) <|
    .cons (.call .one (.answer 0) _ rfl rfl (.answer 0 (by decide)) ?_) <|
    .cons (.call .one .beginFlush _ rfl rfl (.beginFlush rfl rfl) (by simp)) <|
    .cons (.call .one (.callback 0) _ rfl rfl (.flushCallback 0 rfl (by decide)) (by simp)) <|
    .cons (.call .one .endFlush _ rfl rfl (.endFlush rfl (.inl (by decide))) (by simp)) <|
    .cons (.endCall .one rfl rfl rfl) <| .cons (.config .two _ rfl rfl (.inr rfl)) <|
    .cons (.call .two .accept _ rfl rfl (.accept rfl (by decide) (by decide) rfl) (by simp)) <|
    .cons (.call .two (.answer 0) _ rfl rfl (.answer 0 (by decide)) ?_) <|
    .cons (.call .two .beginFlush _ rfl rfl (.beginFlush rfl rfl) (by simp)) <|
    .cons (.call .two (.callback 0) _ rfl rfl (.flushCallback 0 rfl (by decide)) (by simp)) <|
    .cons (.call .two .endFlush _ rfl rfl (.endFlush rfl (.inl (by decide))) (by simp)) <|
    .cons (.endCall .two rfl rfl rfl) <| .nil _, rfl, rfl, rfl⟩
  · rintro k (hk | ⟨hk, -⟩)
    · cases hk
      exact List.mem_cons_self
    · cases hk
  · exact fun k _ he => absurd he (by unfold unknownTopic; decide)

theorem delivered_misplaced_one : ∃ (s : State) (log : List (Round × Nat)), s.main = .delete ∧
    (s.calls .one).vars.delivered = 1 ∧ s.broker.topics typoTopic = some log ∧
    1 ≤ log.countP (fun x => x.1 = .one) ∧ ∀ log, s.broker.topics correctTopic = some log → log = [] := by
  obtain ⟨_, s, hrun, hm, hdelivered, -⟩ := run_misplaced
  obtain ⟨hothers, hstored⟩ := delivered_misplaced hrun
  obtain ⟨log, hlog, hle⟩ := hstored (by rw [hm]; rfl) .one (by omega)
  exact ⟨s, log, hm, hdelivered, hlog, hdelivered ▸ hle, fun log => hothers correctTopic log (by decide)⟩

theorem second_round_misplaced : ∃ s : State, s.main.begun .two = true ∧ (s.calls .one).vars.delivered = 1 ∧
    (s.calls .two).vars.errors = ["Local: Message timed out"] ∧
    ∀ err ∈ (s.calls .two).vars.errors, ¬ unknownTopic err := by
  obtain ⟨_, s, hrun, hm, hdelivered, herrors⟩ := run_misplaced
  have hb : s.main.begun .two = true := by rw [hm]; rfl
  exact ⟨s, hb, hdelivered, herrors, (second_round hrun hb).1 (by omega)⟩

end Shipstream.Simulations.AutoCreateFootgun
