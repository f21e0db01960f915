import Shipstream.Orders.Schema
import Shipstream.Protobuf.MessageClass

/-! The generated Order classes: typed objects go into messages and come back unchanged. -/
namespace Shipstream.Orders
open Protobuf

theorem orderV1_extends_orderV2 : orderV1.Extends orderV2 := by
  intro n hn
  simp only [orderV2, List.mem_cons, List.not_mem_nil, or_false] at hn
  rcases hn with rfl | rfl | rfl | rfl | rfl | rfl <;> exact ⟨by decide, rfl⟩

/-- The six shared fields are read from the six shared numbers only. -/
theorem V2.Order.ofMessage_congr {m m' : Message}
    (h : Message.AgreeOn orderV2.declared.list m m') : ofMessage m = ofMessage m' := by
  have field (n : Nat) (hn : n ∈ orderV2.declared.list) : m.fields n = m'.fields n := h n hn
  simp only [ofMessage, stringField, doubleField, enumField, timestampField,
    field 1 (by decide), field 2 (by decide), field 3 (by decide), field 4 (by decide),
    field 5 (by decide), field 6 (by decide)]

theorem stored_eq_some {v w : Value} (h : v.stored = some w) : w = v ∧ v.isDefault = false := by
  unfold Value.stored at h
  split at h
  · cases h
  · next hd => exact ⟨(Option.some.inj h).symm, by simpa using hd⟩

theorem Timestamp.toValue_hasType (t : Timestamp) : HasType timestamp t.toValue := by
  refine ⟨rfl, fun n v hv => ?_⟩
  simp only [fields] at hv
  split at hv
  case h_3 => cases hv
  all_goals
    obtain ⟨rfl, hd⟩ := stored_eq_some hv
    exact ⟨by decide, hd, trivial⟩

theorem V2.Order.toMessage_typed (o : V2.Order) : orderV2.Typed o.toMessage := by
  refine ⟨rfl, fun n v hv => ?_⟩
  simp only [toMessage] at hv
  split at hv
  case h_6 =>
    obtain ⟨t, -, rfl⟩ := Option.map_eq_some_iff.mp hv
    exact ⟨by decide, rfl, t.toValue_hasType⟩
  case h_7 => cases hv
  all_goals
    obtain ⟨rfl, hd⟩ := stored_eq_some hv
    exact ⟨by decide, hd, trivial⟩

/-! Reading a stored scalar back through its accessor, defaults included. -/

theorem stringField_stored (m : Message) (n : Nat) (s : String) (h : m.fields n = (Value.string s).stored) :
    stringField m n = s := by
  by_cases hs : s = "" <;> simp [stringField, h, Value.stored, Value.isDefault, hs]

theorem doubleField_stored (m : Message) (n : Nat) (bits : BitVec 64)
    (h : m.fields n = (Value.double bits).stored) : doubleField m n = bits := by
  by_cases hb : bits = 0#64 <;> simp [doubleField, h, Value.stored, Value.isDefault, hb]

theorem enumField_stored (m : Message) (n : Nat) (k : BitVec 32) (h : m.fields n = (Value.enum k).stored) :
    enumField m n = k := by
  by_cases hk : k = 0#32 <;> simp [enumField, h, Value.stored, Value.isDefault, hk]

private theorem Timestamp.ofFields_fields (t : Timestamp) : ofFields t.fields = t := by
  obtain ⟨seconds, nanos⟩ := t
  by_cases h : seconds = 0#64 <;> by_cases h' : nanos = 0#32 <;>
    simp [ofFields, fields, Value.stored, Value.isDefault, h, h']

theorem timestampField_stored (m : Message) (n : Nat) (t : Option Timestamp)
    (h : m.fields n = t.map Timestamp.toValue) : timestampField m n = t := by
  cases t with
  | none => simp [timestampField, h]
  | some t => simp [timestampField, h, Timestamp.toValue, t.ofFields_fields]

theorem V2.Order.ofMessage_toMessage (o : V2.Order) : ofMessage o.toMessage = o := by
  have hid := stringField_stored o.toMessage 1 o.id rfl
  have hcustomer := stringField_stored o.toMessage 2 o.customerId rfl
  have hitem := stringField_stored o.toMessage 3 o.item rfl
  have hamount := doubleField_stored o.toMessage 4 o.amount rfl
  have hstatus := enumField_stored o.toMessage 5 o.status rfl
  have hcreated := timestampField_stored o.toMessage 6 o.createdAt rfl
  simp only [ofMessage, hid, hcustomer, hitem, hamount, hstatus, hcreated]

/-- The message of a version 1 Order: the region is field 7. -/
def V1.Order.toMessage (o : V1.Order) : Message where
  fields n := if n = 7 then (Value.string o.region).stored else o.toOrder.toMessage.fields n
  unknown := []

theorem V1.Order.toMessage_typed (o : V1.Order) : orderV1.Typed o.toMessage := by
  refine ⟨rfl, fun n v hv => ?_⟩
  by_cases hn : n = 7
  · subst hn
    obtain ⟨rfl, hd⟩ : v = .string o.region ∧ (Value.string o.region).isDefault = false := stored_eq_some hv
    exact ⟨by decide, hd, trivial⟩
  · have hfields : o.toMessage.fields n = o.toOrder.toMessage.fields n := if_neg hn
    obtain ⟨hin, hd, htype⟩ := o.toOrder.toMessage_typed.2 n v (hfields ▸ hv)
    obtain ⟨hin', heq⟩ := orderV1_extends_orderV2 n hin
    exact ⟨hin', hd, heq ▸ htype⟩

theorem V1.Order.ofMessage_toMessage (o : V1.Order) : ofMessage o.toMessage = o := by
  have hshared : V2.Order.ofMessage o.toMessage = V2.Order.ofMessage o.toOrder.toMessage := by
    apply V2.Order.ofMessage_congr
    intro n hn
    simp only [orderV2, List.mem_cons, List.not_mem_nil, or_false] at hn
    rcases hn with rfl | rfl | rfl | rfl | rfl | rfl <;> rfl
  have hregion := stringField_stored o.toMessage 7 o.region rfl
  rw [ofMessage, hshared, V2.Order.ofMessage_toMessage, hregion]

/-- order_pb2.Order of version 1. -/
def V1.orderClass : MessageClass V1.Order where
  fullName := "order.v1.Order"
  schema := orderV1
  toMessage := V1.Order.toMessage
  ofMessage := V1.Order.ofMessage
  typed := V1.Order.toMessage_typed
  ofMessage_toMessage := V1.Order.ofMessage_toMessage

/-- order_pb2.Order of version 2. -/
def V2.orderClass : MessageClass V2.Order where
  fullName := "order.v2.Order"
  schema := orderV2
  toMessage := V2.Order.toMessage
  ofMessage := V2.Order.ofMessage
  typed := V2.Order.toMessage_typed
  ofMessage_toMessage := V2.Order.ofMessage_toMessage

def V1.parseFromString (b : Bytes) : Option V1.Order := V1.orderClass.parseFromString b

def V2.parseFromString (b : Bytes) : Option V2.Order := V2.orderClass.parseFromString b

def V2.Order.serializeToString (o : V2.Order) : Option Bytes := V2.orderClass.serializeToString o

end Shipstream.Orders
