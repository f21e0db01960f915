import Shipstream.Orders.RoundTrip
import Shipstream.Python.Uuid
import Shipstream.Services.Handover

/-! From the orders of services/producer.py through the topic to the lines of
services/consumer.py. -/
namespace Shipstream.Services
open Kafka Orders Transition

def regions : List String := ["us-east", "us-west", "eu-west", "ap-southeast"]

def items : List String :=
  ["Mechanical Keyboard", "USB-C Hub", "Standing Desk", "Monitor Arm", "Webcam", "Noise-Cancelling Headphones",
    "Laptop Stand", "Mouse Pad", "Ergonomic Chair", "LED Desk Lamp"]

/-- ORDER_STATUS_CREATED, ORDER_STATUS_PAID and ORDER_STATUS_FULFILLED. -/
def statuses : List (BitVec 32) := [1, 2, 3]

/-- What one round of the loop draws: the bits of a UUID, `randint(1, 50)`, three choices, an amount,
and the time of the clock, which a Timestamp can hold. -/
structure Draw where
  uuid : BitVec 128
  customer : Fin 50
  item : Fin items.length
  amount : BitVec 64
  status : Fin statuses.length
  milliseconds : Int
  region : Fin regions.length
  ts : Timestamp
  made : Timestamp.fromMilliseconds milliseconds = some ts

def Draw.order (draw : Draw) : V1.Order where
  id := Python.uuid4String draw.uuid
  customerId := "customer-" ++ toString (draw.customer.val + 1)
  item := items.get draw.item
  amount := draw.amount
  status := statuses.get draw.status
  createdAt := some draw.ts
  region := regions.get draw.region

/-! A drawn order is never too large to be serialized. -/

private theorem Draw.payload_length (draw : Draw) {n : Nat} {v : Protobuf.Value} {p : Protobuf.Payload}
    (hv : draw.order.toMessage.fields n = some v) (hp : Protobuf.payload (orderV1.type n) v = some p) :
    p.write.length ≤ 50 := by
  have hcustomer : ∀ c : Fin 50, ("customer-" ++ toString (c.val + 1)).utf8ByteSize ≤ 40 := by decide
  have hitem : ∀ i : Fin items.length, (items.get i).utf8ByteSize ≤ 40 := by decide
  have hregion : ∀ i : Fin regions.length, (regions.get i).utf8ByteSize ≤ 40 := by decide
  have huuid : (Python.uuid4String draw.uuid).utf8ByteSize ≤ 40 :=
    (Python.uuid4String_size draw.uuid).le.trans (by decide)
  simp only [V1.Order.toMessage] at hv
  split at hv
  · next hn =>
    subst hn
    exact payload_string_length (hregion draw.region) hv hp
  · simp only [V2.Order.toMessage] at hv
    split at hv
    case h_1 => exact payload_string_length huuid hv hp
    case h_2 => exact payload_string_length (hcustomer draw.customer) hv hp
    case h_3 => exact payload_string_length (hitem draw.item) hv hp
    case h_4 =>
      obtain ⟨rfl, -⟩ := stored_eq_some hv
      cases hp
      rw [Protobuf.Payload.write_fixed64_length]
      decide
    case h_5 =>
      obtain ⟨rfl, -⟩ := stored_eq_some hv
      cases hp
      exact (Protobuf.Payload.write_varint_length_le _).trans (by decide)
    case h_6 =>
      obtain ⟨t, -, rfl⟩ := Option.map_eq_some_iff.mp hv
      exact (payload_timestamp_length t hp).trans (by decide)
    case h_7 => cases hv

private theorem Draw.serialized (draw : Draw) (schemaId : BitVec 32) :
    ∃ b, registrySerializer V1.orderClass schemaId draw.order = some b := by
  have hlen := orderV1.encode_length_le draw.order.toMessage.fields fun n v p => draw.payload_length
  have hbody : V1.orderClass.serializeToString draw.order = some (orderV1.encode draw.order.toMessage) := by
    rw [Protobuf.MessageClass.serializeToString]
    exact if_pos (Nat.lt_of_le_of_lt hlen (by decide))
  obtain ⟨b, hb, -⟩ := registrySerializer_of_body V1.orderClass schemaId hbody
  exact ⟨b, hb⟩

/-! The printed lines. -/

/-- The columns of a drawn order that was stored at an offset of a partition. -/
def Draw.row (draw : Draw) (p offset : Nat) : OrderRow := orderRow ⟨p, offset, none⟩ draw.order

/-- A drawn order is shown with the name of its status and with its region. -/
theorem Draw.row_columns (draw : Draw) (p offset : Nat) :
    (draw.row p offset).status ≠ "UNKNOWN" ∧ (draw.row p offset).region ≠ "" := by
  have hstatus : ∀ i : Fin statuses.length, (statusName (statuses.get i)).getD "UNKNOWN" ≠ "UNKNOWN" := by decide
  have hregion : ∀ i : Fin regions.length, regions.get i ≠ "" := by decide
  exact ⟨hstatus draw.status, hregion draw.region⟩

/-- The iteration that is handed a serialized drawn order prints its row. -/
theorem Draw.printed (draw : Draw) (schemaId : BitVec 32) (p offset : Nat) :
    iteration (registryDeserializer V1.orderClass)
        (.message ⟨p, offset, registrySerializer V1.orderClass schemaId draw.order⟩) =
      .printed (.order (draw.row p offset)) := by
  obtain ⟨b, hb⟩ := draw.serialized schemaId
  have hread : registryDeserializer V1.orderClass (some b) = .ok (some draw.order) :=
    registryDeserializer_serializer V1.orderClass hb
  simp only [iteration, hb, hread]
  rfl

variable {d : Deployment} {g : Group} {log : Nat → List (Option Protobuf.Bytes)} {es : List Event} {p : Nat}

/-- An offset that was printed lies below the number of lines, when these are in order. -/
theorem InOrder.offset_lt (h : InOrder g p) {k : Nat} (hk : g.Reported p k) : k < (g.lines p).length := by
  obtain ⟨r, hr, hp, rfl⟩ := hk
  have hin : r ∈ g.lines p := List.mem_filter.mpr ⟨hr, by simpa using hp⟩
  obtain ⟨i, hi, hget⟩ := List.mem_iff_getElem.mp (List.mem_map_of_mem (f := Prod.fst) hin)
  have hrecord := h.reported.getElem hi
  rw [hget] at hrecord
  simp only [Group.records, List.getElem_mapIdx] at hrecord
  rw [hrecord]
  simpa using hi

/-- A topic whose partition holds drawn orders, serialized by the producer: over all runs with clean
hand-overs the group prints the rows of a first part of them, in order and each once, with the
names of their statuses and their regions; and whatever is committed while nothing is in hand
has been printed. -/
theorem orders_printed (hd : d.deserializer = registryDeserializer V1.orderClass)
    (h : Run (Guarded (Step d) CleanHandover) (.initial log) es g) {draws : List Draw} {schemaId : BitVec 32}
    (hlog : g.log p = draws.map fun draw => registrySerializer V1.orderClass schemaId draw.order) :
    ∃ n ≤ draws.length,
      (g.lines p).map Prod.snd = (draws.take n).mapIdx (fun offset draw => .order (draw.row p offset)) ∧
      (∀ draw ∈ draws, ∀ offset, (draw.row p offset).status ≠ "UNKNOWN" ∧ (draw.row p offset).region ≠ "") ∧
      ∀ k, g.committed p = some k → (∀ c < d.consumers, ∀ j, ¬ g.HeldBy c p j) → k ≤ n := by
  obtain ⟨hf, hi⟩ := run_inOrder h
  have hprefix := (hi p).reported
  have hlength : (g.lines p).length ≤ draws.length := by
    have hle := hprefix.length_le
    rwa [Group.records, hlog, List.length_map, List.length_mapIdx, List.length_map] at hle
  refine ⟨(g.lines p).length, hlength, ?_, fun draw _ offset => draw.row_columns p offset, fun k hk hidle => ?_⟩
  · apply List.ext_getElem
    · simp [hlength]
    · intro i hi hi'
      rw [List.length_map] at hi
      simp only [List.getElem_map, List.getElem_mapIdx, List.getElem_take]
      have hmem : (g.lines p)[i] ∈ g.reported := (List.mem_filter.mp (List.getElem_mem hi)).1
      have hmessage := hprefix.getElem (i := i) (by simpa using hi)
      simp only [List.getElem_map, Group.records, hlog, List.getElem_mapIdx] at hmessage
      have hline := (hf.reported _ hmem).2
      rw [hmessage, hd, Draw.printed] at hline
      exact (Iteration.printed.inj hline).symm
  · by_contra hlt
    have hinv := run_invariant h.unguarded
    rcases hinv.committed p k (g.lines p).length hk (by omega) with hr | ⟨c, hc, hheld⟩
    · exact Nat.lt_irrefl _ ((hi p).offset_lt hr)
    · exact hidle c hc _ hheld

def sampleDraw : Draw where
  uuid := 0x5f0c2a4e8d1b4c679a3e1f2b3c4d5e6f
  customer := 6
  item := ⟨1, by decide⟩
  amount := 0
  status := ⟨1, by decide⟩
  milliseconds := 1700000000000
  region := ⟨2, by decide⟩
  ts := ⟨1700000000, 0⟩
  made := by decide

/-- One order on one partition, printed and committed. -/
theorem run_order : ∃ es g, Run (Guarded (Step smallDeployment) CleanHandover)
    (.initial fun p => if p = 0 then [registrySerializer V1.orderClass 1 sampleDraw.order] else []) es g ∧
      g.log 0 = [sampleDraw].map (fun draw => registrySerializer V1.orderClass 1 draw.order) ∧
      g.committed 0 = some 1 := by
  let owner : Nat → Option Nat := fun p => if p = 0 then some 0 else none
  refine ⟨_, _,
    .guarded_cons (.start 0 (by decide) rfl) trivial <|
    .guarded_cons (.rebalance owner fun p c hc => ?_) (fun p c hc => by cases hc) <|
    .guarded_cons (.poll 0 0 (registrySerializer V1.orderClass 1 sampleDraw.order) rfl rfl rfl rfl) trivial <|
    .guarded_cons (.report 0 _ _ rfl rfl (sampleDraw.printed 1 0 0)) trivial <|
    .guarded_cons (.commit 0 0 1 rfl rfl rfl) trivial <| .nil _, rfl, rfl⟩
  have hc : owner p = some c := hc
  simp only [owner, Option.ite_none_right_eq_some, Option.some.injEq] at hc
  obtain ⟨rfl, rfl⟩ := hc
  exact ⟨by decide, rfl⟩

theorem orders_printed_sample : ∃ es g, Run (Guarded (Step smallDeployment) CleanHandover)
    (.initial fun p => if p = 0 then [registrySerializer V1.orderClass 1 sampleDraw.order] else []) es g ∧
    ∃ n ≤ 1, (g.lines 0).map Prod.snd = ([sampleDraw].take n).mapIdx (fun offset draw => .order (draw.row 0 offset)) ∧
      (∀ draw ∈ [sampleDraw], ∀ offset, (draw.row 0 offset).status ≠ "UNKNOWN" ∧ (draw.row 0 offset).region ≠ "") ∧
      ∀ k, g.committed 0 = some k → (∀ c < 2, ∀ j, ¬ g.HeldBy c 0 j) → k ≤ n := by
  obtain ⟨es, g, hrun, hlog, -⟩ := run_order
  exact ⟨es, g, hrun, orders_printed rfl hrun hlog⟩

end Shipstream.Services
