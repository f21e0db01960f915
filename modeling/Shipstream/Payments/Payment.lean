import Shipstream.Orders.RoundTrip
import Shipstream.Python.Uuid

/-! The Payment message and the payments that payment_producer.py makes. -/
namespace Shipstream.Payments
open Protobuf Orders Python

/-- payment/v1/payment.proto -/
def paymentV1 : Schema where
  declared := ⟨[1, 2, 3, 4, 5, 6, 7, 8], by decide, by decide⟩
  type
    | 1 => .string   -- payment_id
    | 2 => .string   -- order_id
    | 3 => .string   -- customer_id
    | 4 => .double   -- amount
    | 5 => .string   -- currency
    | 6 => .enum     -- status
    | 7 => .string   -- processor
    | _ => timestamp -- created_at

/-- payment.v1.Payment -/
structure Payment where
  paymentId : String
  orderId : String
  customerId : String
  amount : BitVec 64
  currency : String
  status : BitVec 32
  processor : String
  createdAt : Option Timestamp
  deriving DecidableEq, Repr

namespace Payment

def ofMessage (m : Message) : Payment where
  paymentId := stringField m 1
  orderId := stringField m 2
  customerId := stringField m 3
  amount := doubleField m 4
  currency := stringField m 5
  status := enumField m 6
  processor := stringField m 7
  createdAt := timestampField m 8

def toMessage (p : Payment) : Message where
  fields
    | 1 => (Value.string p.paymentId).stored
    | 2 => (Value.string p.orderId).stored
    | 3 => (Value.string p.customerId).stored
    | 4 => (Value.double p.amount).stored
    | 5 => (Value.string p.currency).stored
    | 6 => (Value.enum p.status).stored
    | 7 => (Value.string p.processor).stored
    | 8 => p.createdAt.map Timestamp.toValue
    | _ => none
  unknown := []

theorem toMessage_typed (p : Payment) : paymentV1.Typed p.toMessage := by
  refine ⟨rfl, fun n v hv => ?_⟩
  simp only [toMessage] at hv
  split at hv
  case h_8 =>
    obtain ⟨t, -, rfl⟩ := Option.map_eq_some_iff.mp hv
    exact ⟨by decide, rfl, t.toValue_hasType⟩
  case h_9 => cases hv
  all_goals
    obtain ⟨rfl, hd⟩ := stored_eq_some hv
    exact ⟨by decide, hd, trivial⟩

theorem ofMessage_toMessage (p : Payment) : ofMessage p.toMessage = p := by
  have hpayment := stringField_stored p.toMessage 1 p.paymentId rfl
  have horder := stringField_stored p.toMessage 2 p.orderId rfl
  have hcustomer := stringField_stored p.toMessage 3 p.customerId rfl
  have hamount := doubleField_stored p.toMessage 4 p.amount rfl
  have hcurrency := stringField_stored p.toMessage 5 p.currency rfl
  have hstatus := enumField_stored p.toMessage 6 p.status rfl
  have hprocessor := stringField_stored p.toMessage 7 p.processor rfl
  have hcreated := timestampField_stored p.toMessage 8 p.createdAt rfl
  simp only [ofMessage, hpayment, horder, hcustomer, hamount, hcurrency, hstatus, hprocessor, hcreated]

end Payment

/-- payment_pb2.Payment. -/
def paymentClass : MessageClass Payment where
  fullName := "payment.v1.Payment"
  schema := paymentV1
  toMessage := Payment.toMessage
  ofMessage := Payment.ofMessage
  typed := Payment.toMessage_typed
  ofMessage_toMessage := Payment.ofMessage_toMessage

/-! payment_producer.py -/

def processors : List String := ["stripe", "adyen", "braintree", "checkout.com"]

def currencies : List String := ["USD", "EUR", "GBP", "SGD"]

/-- PAYMENT_STATUS_PENDING, PAYMENT_STATUS_AUTHORIZED, PAYMENT_STATUS_CAPTURED and PAYMENT_STATUS_FAILED. -/
def statuses : List (BitVec 32) := [1, 2, 3, 4]

/-- What one call of `make_payment` draws: the bits of two UUIDs, the time of the clock, and the choices. -/
structure Draw where
  paymentUuid : BitVec 128
  orderUuid : BitVec 128
  customer : Fin 200
  amount : BitVec 64
  currency : Fin currencies.length
  status : Fin statuses.length
  processor : Fin processors.length
  milliseconds : Int

/-- `make_payment`; none is the ValueError of a clock that no Timestamp can hold. -/
def makePayment (draw : Draw) : Option Payment :=
  (Timestamp.fromMilliseconds draw.milliseconds).map fun ts =>
    { paymentId := uuid4String draw.paymentUuid
      orderId := uuid4String draw.orderUuid
      customerId := "cust-" ++ toString (draw.customer.val + 1)
      amount := draw.amount
      currency := currencies.get draw.currency
      status := statuses.get draw.status
      processor := processors.get draw.processor
      createdAt := some ts }

set_option maxRecDepth 4000 in
private theorem customer_size : ∀ c : Fin 200, ("cust-" ++ toString (c.val + 1)).utf8ByteSize ≤ 40 := by decide

private theorem makePayment_payload_length {draw : Draw} {payment : Payment}
    (h : makePayment draw = some payment) {n : Nat} {v : Value} {p : Payload} (hv : payment.toMessage.fields n = some v) (hp : payload (paymentV1.type n) v = some p) :
    p.write.length ≤ 50 := by
  have hcurrency : ∀ i : Fin currencies.length, (currencies.get i).utf8ByteSize ≤ 40 := by decide
  have hprocessor : ∀ i : Fin processors.length, (processors.get i).utf8ByteSize ≤ 40 := by decide
  have huuid (random : BitVec 128) : (uuid4String random).utf8ByteSize ≤ 40 :=
    (uuid4String_size random).le.trans (by decide)
  obtain ⟨ts, -, rfl⟩ := Option.map_eq_some_iff.mp h
  simp only [Payment.toMessage] at hv
  split at hv
  case h_1 => exact payload_string_length (huuid draw.paymentUuid) hv hp
  case h_2 => exact payload_string_length (huuid draw.orderUuid) hv hp
  case h_3 => exact payload_string_length (customer_size draw.customer) hv hp
  case h_4 =>
    obtain ⟨rfl, -⟩ := stored_eq_some hv
    cases hp
    rw [Payload.write_fixed64_length]
    decide
  case h_5 => exact payload_string_length (hcurrency draw.currency) hv hp
  case h_6 =>
    obtain ⟨rfl, -⟩ := stored_eq_some hv
    cases hp
    exact (Payload.write_varint_length_le _).trans (by decide)
  case h_7 => exact payload_string_length (hprocessor draw.processor) hv hp
  case h_8 =>
    obtain ⟨t, -, rfl⟩ := Option.map_eq_some_iff.mp hv
    exact (payload_timestamp_length t hp).trans (by decide)
  case h_9 => cases hv

/-- `make_payment` raises exactly when the clock is outside the years 1 to 9999. Every payment that it
returns is serialized, in less than 500 bytes, and a reader of the topic gets it back field for
field, with the time to the millisecond. -/
theorem made_payment_reads_back (draw : Draw) (schemaId : BitVec 32) :
    (makePayment draw = none ↔ ¬ Timestamp.ValidSeconds (draw.milliseconds / 1000)) ∧
    ∀ payment, makePayment draw = some payment →
      ∃ b t, registrySerializer paymentClass schemaId payment = some b ∧ b.length < 500 ∧
        registryDeserializer paymentClass (some b) = .ok (some payment) ∧
        payment.createdAt = some t ∧ 0 ≤ t.nanos.toInt ∧ t.nanos.toInt < 1000000000 ∧
        t.seconds.toInt * 1000 + t.nanos.toInt / 1000000 = draw.milliseconds := by
  refine ⟨by rw [makePayment, Option.map_eq_none_iff, Timestamp.fromMilliseconds_eq_none], fun payment h => ?_⟩
  have hlen : (paymentV1.encode payment.toMessage).length ≤ 440 :=
    paymentV1.encode_length_le payment.toMessage.fields fun n v p => makePayment_payload_length h
  have hbody : paymentClass.serializeToString payment = some (paymentV1.encode payment.toMessage) := by
    rw [MessageClass.serializeToString]
    exact if_pos (Nat.lt_of_le_of_lt hlen (by decide))
  obtain ⟨b, hb, hsize⟩ := registrySerializer_of_body paymentClass schemaId hbody
  obtain ⟨ts, hts, rfl⟩ := Option.map_eq_some_iff.mp h
  exact ⟨b, ts, hb, by omega, registryDeserializer_serializer paymentClass hb, rfl,
    Timestamp.fromMilliseconds_spec hts⟩

/-- A payment drawn in November 2023. -/
def sampleDraw : Draw where
  paymentUuid := 0x5f0c2a4e8d1b4c679a3e1f2b3c4d5e6f
  orderUuid := 0
  customer := 6
  amount := 0x4059000000000000
  currency := ⟨1, by decide⟩
  status := ⟨2, by decide⟩
  processor := ⟨0, by decide⟩
  milliseconds := 1700000000123

theorem made_payment_reads_back_sample : ∃ payment b t, makePayment sampleDraw = some payment ∧
    registrySerializer paymentClass 1 payment = some b ∧
    registryDeserializer paymentClass (some b) = .ok (some payment) ∧
    payment.createdAt = some t ∧ t.seconds.toInt * 1000 + t.nanos.toInt / 1000000 = 1700000000123 := by
  obtain ⟨payment, h⟩ : ∃ payment, makePayment sampleDraw = some payment := ⟨_, rfl⟩
  obtain ⟨b, t, hb, -, hread, ht, -, -, htime⟩ := (made_payment_reads_back sampleDraw 1).2 payment h
  exact ⟨payment, b, t, h, hb, hread, ht, htime⟩

end Shipstream.Payments
