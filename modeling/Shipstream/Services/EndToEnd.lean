import Shipstream.Services.Pipeline
import Shipstream.Services.Producer

/-! services/producer.py, the topic and the consumers of services/consumer.py at work together: what the
producer reports of an order against what the consumers print. -/
namespace Shipstream.Services
open Kafka Orders Transition
open Kafka.Producer (Outcome Receipt)

/-- What the producer hands over for a drawn order. -/
def Draw.payload (draw : Draw) (schemaId : BitVec 32) : Option Protobuf.Bytes :=
  registrySerializer V1.orderClass schemaId draw.order

/-- The producer with the lines it has printed, and the group with the topic. -/
structure System where
  client : Kafka.Producer.State (List Producer.Line)
  group : Group

/-- One run of the producer: how many orders, what it draws, and how the orders fare. -/
structure Publication where
  count : Nat
  capacity : Nat
  schemaId : BitVec 32
  draws : Nat → Draw
  outcome : Nat → Outcome String Receipt

inductive SystemEvent where
  | client (ev : Kafka.Producer.Event)
  | store (k p : Nat)
  | group (ev : Event)

namespace Publication
variable (publication : Publication)

def payload (k : Nat) : Option Protobuf.Bytes := (publication.draws k).payload publication.schemaId

/-- An order that the client is told to be delivered is in the log where it is told. -/
def Honest (g : Group) (k : Nat) : Prop :=
  ∀ receipt, publication.outcome k = .delivered receipt →
    (g.log receipt.partition)[receipt.offset]? = some (publication.payload k)

end Publication

/-- The broker stores an order that was handed over at any time, on any partition, and more than once
when the client sends it again; also one that the client is then told to have failed. -/
inductive SystemStep (publication : Publication) (d : Deployment) : System → SystemEvent → System → Prop where
  | client {s : System} (ev : Kafka.Producer.Event) (client : Kafka.Producer.State (List Producer.Line))
      (hs : Kafka.Producer.Step (Producer.main publication.count) publication.capacity publication.outcome s.client ev
        client)
      (hk : ∀ k, ev = .answer k → publication.Honest s.group k) :
      SystemStep publication d s (.client ev) { s with client := client }
  | store {s : System} (k p : Nat) (hk : k < s.client.next) (hp : p < d.partitions) :
      SystemStep publication d s (.store k p) { s with group := s.group.append p (publication.payload k) }
  | group {s : System} (ev : Event) (g : Group) (hev : ∀ p value, ev ≠ .append p value) (hs : Step d s.group ev g) :
      SystemStep publication d s (.group ev) { s with group := g }

def System.initial (publication : Publication) (log : Nat → List (Option Protobuf.Bytes)) : System :=
  ⟨(Producer.main publication.count).initial, .initial log⟩

variable {publication : Publication} {d : Deployment} {s t : System} {ev : SystemEvent} {events : List SystemEvent}
  {log : Nat → List (Option Protobuf.Bytes)} {k : Nat} {receipt : Receipt}

/-! The producer and the group each make a run of their own. -/

private theorem run_client (h : Run (SystemStep publication d) (.initial publication log) events s) :
    ∃ es, Run (Kafka.Producer.Step (Producer.main publication.count) publication.capacity publication.outcome)
      (Producer.main publication.count).initial es s.client := by
  refine h.project System.client fun s ev t hs => ?_
  cases hs with
  | client ev client hs => exact .inr ⟨ev, hs⟩
  | store | group => exact .inl rfl

theorem SystemStep.group_step (hs : SystemStep publication d s ev t) :
    t.group = s.group ∨ ∃ e, Step d s.group e t.group := by
  cases hs with
  | client => exact .inl rfl
  | store k p hk hp => exact .inr ⟨_, .append p _ hp⟩
  | group ev g _ hs => exact .inr ⟨ev, hs⟩

private theorem run_group (h : Run (SystemStep publication d) (.initial publication log) events s) :
    ∃ es, Run (Step d) (.initial log) es s.group :=
  h.project System.group fun _ _ _ hs => hs.group_step

/-! What the client has been told stays true. -/

theorem Publication.Honest.step (h : publication.Honest s.group k) (hs : SystemStep publication d s ev t) :
    publication.Honest t.group k := by
  intro receipt hr
  rcases hs.group_step with hsame | ⟨e, he⟩
  · exact hsame ▸ h receipt hr
  · obtain ⟨rest, hrest⟩ := he.log_prefix receipt.partition
    have hvalue := h receipt hr
    rw [← hrest, List.getElem?_append_left (List.getElem?_eq_some_iff.mp hvalue).1]
    exact hvalue

private theorem run_honest (h : Run (SystemStep publication d) (.initial publication log) events s) (k : Nat)
    (hk : Kafka.Producer.Reported s.client k) : publication.Honest s.group k := by
  refine h.invariant (fun s => Kafka.Producer.Reported s.client k → publication.Honest s.group k) ?_ ?_ hk
  · intro s ev t hs ih hk
    cases hs with
    | client ev client hc hhonest =>
      rcases hc.reported hk with hk | hev | ⟨rfl, -⟩
      · exact ih hk
      · exact hhonest k hev
      · -- producer.py has no clause for a refusal
        cases hc with
        | refuse _ _ _ _ hr => cases hr
    | store j p hj hp => exact (ih hk).step (.store j p hj hp)
    | group ev g hev hs => exact (ih hk).step (.group ev g hev hs)
  · exact fun hk => absurd hk Kafka.Producer.not_reported_initial

/-! The lines of the producer. -/

namespace Producer

/-- The line of an order, once its delivery report is served. -/
def line? : Outcome String Receipt → Option Line
  | .delivered receipt => some (.ok receipt)
  | .failed err => some (.error err)
  | .refused _ => none

private theorem foldl_handle (count : Nat) (outcome : Nat → Outcome String Receipt) (settled : List Nat)
    (lines : List Line) :
    settled.foldl (fun lines k => (main count).handle (outcome k) lines) lines =
      lines ++ settled.filterMap fun k => line? (outcome k) := by
  induction settled generalizing lines with
  | nil => exact (List.append_nil _).symm
  | cons k settled ih =>
    rw [List.foldl_cons, ih, List.filterMap_cons]
    cases hk : outcome k with
    | delivered | failed =>
      show (lines ++ [_]) ++ _ = _
      rw [List.append_assoc]
      rfl
    | refused => rfl

variable {count : Nat} {outcome : Nat → Outcome String Receipt} {client : Kafka.Producer.State (List Line)}

/-- The printed lines are those of the settled orders, in that order. -/
theorem lines_eq (h : Kafka.Producer.Inv (main count) outcome client) :
    client.vars = client.settled.filterMap fun k => line? (outcome k) := by
  rw [h.vars, foldl_handle]
  rfl

private theorem ok_mem_iff (h : Kafka.Producer.Inv (main count) outcome client) {receipt : Receipt} :
    .ok receipt ∈ client.vars ↔ ∃ k ∈ client.settled, outcome k = .delivered receipt := by
  rw [lines_eq h, List.mem_filterMap]
  refine exists_congr fun k => and_congr_right fun _ => ?_
  cases outcome k <;> simp [line?]

private theorem error_mem_iff (h : Kafka.Producer.Inv (main count) outcome client) {err : String} :
    .error err ∈ client.vars ↔ ∃ k ∈ client.settled, outcome k = .failed err := by
  rw [lines_eq h, List.mem_filterMap]
  refine exists_congr fun k => and_congr_right fun _ => ?_
  cases outcome k <;> simp [line?]

/-- When `main` has returned every order has its line. -/
theorem line_of_returned (h : Kafka.Producer.Inv (main count) outcome client) (hp : client.point = .returned) {k : Nat}
    (hk : k < count) : k ∈ client.settled ∧
      ((∃ receipt, outcome k = .delivered receipt) ∨ ∃ err, outcome k = .failed err) := by
  have hb : client.backlog = 0 := (h.flushed hp).resolve_right Bool.false_ne_true
  have hperm := h.settled_perm hp hb
  have hk' : k ∈ client.settled := hperm.mem_iff.mpr (List.mem_range.mpr hk)
  refine ⟨hk', ?_⟩
  cases ho : outcome k with
  | delivered receipt => exact .inl ⟨receipt, rfl⟩
  | failed err => exact .inr ⟨err, rfl⟩
  | refused err =>
    -- a refusal would have raised
    have haccepted := h.unhandled rfl
    have htally := h.accepted
    have hzero : client.tally outcome Outcome.isRefused = 0 := by omega
    rw [Kafka.Producer.State.tally, List.countP_eq_zero] at hzero
    exact absurd (show (outcome k).isRefused = true by rw [ho]; rfl) (hzero k hk')

end Producer

/-! What the consumers print of an order. -/

/-- Every line of the group for the place where an order is stored is the row of this order. -/
theorem Faithful.line_eq {g : Group} (hf : Faithful d g) (hd : d.deserializer = registryDeserializer V1.orderClass)
    {draw : Draw} {schemaId : BitVec 32} {p offset : Nat} (hlog : (g.log p)[offset]? = some (draw.payload schemaId))
    {r : Message × Line} (hr : r ∈ g.reported) (hp : r.1.partition = p) (ho : r.1.offset = offset) :
    r.2 = .order (draw.row p offset) := by
  obtain ⟨hholds, hline⟩ := hf.reported r hr
  have hmessage : r.1 = ⟨p, offset, draw.payload schemaId⟩ := by
    obtain ⟨⟨q, o, value⟩, line⟩ := r
    subst hp ho
    have hvalue : (g.log q)[o]? = some value := hholds
    rw [Option.some.inj (hvalue.symm.trans hlog)]
  rw [hd, hmessage, Draw.payload, Draw.printed] at hline
  exact (Iteration.printed.inj hline).symm

/-- Over every run of the producer, the broker and the group of consumers, wherever these are closed or
killed and however the partitions move: an [OK] line of the producer names the partition and the
offset of an order it drew, and whatever the group prints for that place, once or again, is the row
of that order. When the producer is done and the group has committed all there is with nothing in
hand, every order has an [ERROR] line or is printed at the place that its [OK] line names. -/
theorem orders_accounted (hd : d.deserializer = registryDeserializer V1.orderClass)
    (h : Run (SystemStep publication d) (.initial publication log) events s) :
    (∀ receipt, .ok receipt ∈ s.client.vars → ∃ k < publication.count, publication.outcome k = .delivered receipt ∧
      ∀ r ∈ s.group.reported, r.1.partition = receipt.partition → r.1.offset = receipt.offset →
        r.2 = .order ((publication.draws k).row receipt.partition receipt.offset)) ∧
    (s.client.point = .returned → (∀ p, (s.group.log p).length ≤ resumeAt (s.group.committed p)) →
      (∀ c < d.consumers, (s.group.consumer c).inFlight = none) → ∀ k < publication.count,
        (∃ err, .error err ∈ s.client.vars ∧ publication.outcome k = .failed err) ∨
        ∃ receipt, .ok receipt ∈ s.client.vars ∧ publication.outcome k = .delivered receipt ∧
          ∃ r ∈ s.group.reported, r.1.partition = receipt.partition ∧ r.1.offset = receipt.offset ∧
            r.2 = .order ((publication.draws k).row receipt.partition receipt.offset)) := by
  obtain ⟨_, hclient⟩ := run_client h
  obtain ⟨_, hgroup⟩ := run_group h
  have hi := Kafka.Producer.run_inv hclient
  have hf := run_faithful hgroup
  have hstored : ∀ k ∈ s.client.settled, ∀ receipt, publication.outcome k = .delivered receipt →
      (s.group.log receipt.partition)[receipt.offset]? = some (publication.payload k) := fun k hk =>
    run_honest h k (.inr (.inr hk))
  have hrow : ∀ k ∈ s.client.settled, ∀ receipt, publication.outcome k = .delivered receipt → ∀ r ∈ s.group.reported,
      r.1.partition = receipt.partition → r.1.offset = receipt.offset →
        r.2 = .order ((publication.draws k).row receipt.partition receipt.offset) := fun k hk receipt ho r hr =>
    hf.line_eq hd (hstored k hk receipt ho) hr
  constructor
  · intro receipt hok
    obtain ⟨k, hk, ho⟩ := (Producer.ok_mem_iff hi).mp hok
    have hlt := hi.lt_next (Kafka.Producer.State.mem_places.mpr (.inr (.inr (.inr hk))))
    exact ⟨k, hlt.trans_le hi.next, ho, hrow k hk receipt ho⟩
  · intro hreturned hcommitted hidle k hk
    obtain ⟨hsettled, ⟨receipt, ho⟩ | ⟨err, ho⟩⟩ := Producer.line_of_returned hi hreturned hk
    · right
      refine ⟨receipt, (Producer.ok_mem_iff hi).mpr ⟨k, hsettled, ho⟩, ho, ?_⟩
      have hlength := (List.getElem?_eq_some_iff.mp (hstored k hsettled receipt ho)).1
      have hbelow := hlength.trans_le (hcommitted receipt.partition)
      obtain ⟨n, hn, hlt⟩ : ∃ n, s.group.committed receipt.partition = some n ∧ receipt.offset < n := by
        cases hc : s.group.committed receipt.partition with
        | none => simp [resumeAt, hc] at hbelow
        | some n => exact ⟨n, rfl, by simpa [resumeAt, hc] using hbelow⟩
      rcases (run_invariant hgroup).committed _ n _ hn hlt with ⟨r, hr, hp, ho'⟩ | ⟨c, hc, m, hm, -⟩
      · exact ⟨r, hr, hp, ho', hrow k hsettled receipt ho r hr hp ho'⟩
      · rw [hidle c hc] at hm
        cases hm
    · exact .inl ⟨err, (Producer.error_mem_iff hi).mpr ⟨k, hsettled, ho⟩, ho⟩

def oneOrder : Publication := ⟨1, 1, 1, fun _ => sampleDraw, fun _ => .delivered ⟨0, 0⟩⟩

/-- The order is stored, reported, and then printed and committed by the first consumer. -/
theorem run_one_order : ∃ events s,
    Run (SystemStep oneOrder smallDeployment) (.initial oneOrder fun _ => []) events s ∧ s.client.point = .returned ∧
      (∀ p, (s.group.log p).length ≤ resumeAt (s.group.committed p)) ∧
      ∀ c, (s.group.consumer c).inFlight = none := by
  let owner : Nat → Option Nat := fun p => if p = 0 then some 0 else none
  have howner (g : Group) (hg : g.Running 0) (p c : Nat) (hc : owner p = some c) :
      p < smallDeployment.partitions ∧ g.Running c := by
    simp only [owner, Option.ite_none_right_eq_some, Option.some.injEq] at hc
    obtain ⟨rfl, rfl⟩ := hc
    exact ⟨by decide, hg⟩
  refine ⟨_, _,
    .cons (.client _ _ (.accept rfl (by decide) (by decide) rfl) (by rintro _ ⟨⟩)) <|
    .cons (.client _ _ (.beginPoll rfl) (by rintro _ ⟨⟩)) <| .cons (.client _ _ (.endPoll rfl) (by rintro _ ⟨⟩)) <|
    .cons (.client _ _ (.beginFlush rfl rfl) (by rintro _ ⟨⟩)) <| .cons (.store 0 0 (by decide) (by decide)) <|
    .cons (.client _ _ (.answer 0 (by decide)) ?_) <|
    .cons (.client _ _ (.flushCallback 0 rfl (by decide)) (by rintro _ ⟨⟩)) <|
    .cons (.client _ _ (.endFlush rfl (.inl rfl)) (by rintro _ ⟨⟩)) <|
    .cons (.group _ _ (by rintro _ _ ⟨⟩) (.start 0 (by decide) rfl)) <|
    .cons (.group _ _ (by rintro _ _ ⟨⟩) (.rebalance owner (howner _ rfl))) <|
    .cons (.group _ _ (by rintro _ _ ⟨⟩) (.poll 0 0 (oneOrder.payload 0) rfl rfl rfl rfl)) <|
    .cons (.group _ _ (by rintro _ _ ⟨⟩) (.report 0 _ _ rfl rfl (sampleDraw.printed 1 0 0))) <|
    .cons (.group _ _ (by rintro _ _ ⟨⟩) (.commit 0 0 1 rfl rfl rfl)) <| .nil _, rfl, fun p => ?_, fun c => ?_⟩
  · rintro k ⟨⟩ receipt hr
    cases hr
    rfl
  · by_cases hp : p = 0
    · subst hp
      exact Nat.le_refl 1
    · simp [Group.append, Group.setConsumer, Group.start, Group.rebalance, Group.poll, Group.report, Group.commit,
        System.initial, Group.initial, hp]
  · by_cases hc : c = 0
    · subst hc
      rfl
    · simp [Group.append, Group.setConsumer, Group.start, Group.rebalance, Group.poll, Group.report, Group.commit,
        System.initial, Group.initial, Consumer.fresh, hc]

theorem orders_accounted_one : ∃ events s,
    Run (SystemStep oneOrder smallDeployment) (.initial oneOrder fun _ => []) events s ∧
      ∃ r ∈ s.group.reported, r.1.partition = 0 ∧ r.1.offset = 0 ∧ r.2 = .order (sampleDraw.row 0 0) := by
  obtain ⟨events, s, hrun, hreturned, hcommitted, hidle⟩ := run_one_order
  refine ⟨events, s, hrun, ?_⟩
  rcases (orders_accounted rfl hrun).2 hreturned hcommitted (fun c _ => hidle c) 0 (by decide) with
    ⟨err, -, ho⟩ | ⟨receipt, -, ho, r, hr, hp, hoffset, hrow⟩
  · cases ho
  · cases ho
    exact ⟨r, hr, hp, hoffset, hrow⟩

end Shipstream.Services
