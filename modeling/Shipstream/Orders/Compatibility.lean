import Shipstream.Orders.OrderClass

/-! Version 2 of Order against version 1, on every body of bytes and every typed Order. -/
namespace Shipstream.Orders
open Protobuf

private theorem V2.Order.region_toMessage (o : V2.Order) : stringField o.toMessage 7 = "" := rfl

/-- Every body that version 1 decodes version 2 decodes to the same six fields. -/
theorem V2.parseFromString_of_v1 {b : Bytes} {o₁ : V1.Order} (h : V1.parseFromString b = some o₁) :
    ∃ o₂, V2.parseFromString b = some o₂ ∧ o₁.toOrder = o₂ := by
  obtain ⟨m, hm, rfl⟩ := Option.map_eq_some_iff.mp h
  obtain ⟨m', hm', hA⟩ := orderV1_extends_orderV2.decode hm
  have hparse : V2.parseFromString b = some (V2.Order.ofMessage m') := Option.map_eq_some_iff.mpr ⟨m', hm', rfl⟩
  exact ⟨_, hparse, V2.Order.ofMessage_congr hA⟩

/-- The encoding of every version 2 Order reads as version 1 with no region. -/
theorem V1.parseFromString_encode (o : V2.Order) (h : (orderV2.encode o.toMessage).length < 2 ^ 31) :
    V1.parseFromString (orderV2.encode o.toMessage) = some { toOrder := o, region := "" } := by
  have hdec := orderV1_extends_orderV2.decode_encode o.toMessage_typed (by omega)
  have hparse : V1.parseFromString (orderV2.encode o.toMessage) = some (V1.Order.ofMessage o.toMessage) :=
    Option.map_eq_some_iff.mpr ⟨_, hdec, rfl⟩
  rw [hparse, V1.Order.ofMessage, o.ofMessage_toMessage, o.region_toMessage]

/-- Serialization gives the encoding, and refuses an Order only when that takes 2 GiB or more. -/
theorem V2.Order.serializeToString_eq (o : V2.Order) :
    o.serializeToString =
      if (orderV2.encode o.toMessage).length < 2 ^ 31 then some (orderV2.encode o.toMessage) else none := rfl

/-- Deleting `region` is safe in both directions: every body that version 1 decodes version 2
decodes to the same six fields, whatever field 7 carries; and every version 2 Order whose encoding
stays below the 2 GiB that a message may take is serialized to this encoding, which reads as
version 1 with the six fields unchanged and the region empty. -/
theorem order_evolution_safe :
    (∀ (b : Bytes) (o₁ : V1.Order), V1.parseFromString b = some o₁ →
      ∃ o₂, V2.parseFromString b = some o₂ ∧ o₁.toOrder = o₂) ∧
    ∀ o : V2.Order, (orderV2.encode o.toMessage).length < 2 ^ 31 →
      o.serializeToString = some (orderV2.encode o.toMessage) ∧
        V1.parseFromString (orderV2.encode o.toMessage) = some { toOrder := o, region := "" } :=
  ⟨fun _ _ h => V2.parseFromString_of_v1 h, fun o h =>
    ⟨by rw [o.serializeToString_eq, if_pos h], V1.parseFromString_encode o h⟩⟩

/-- An Order from version 1 with a region, a status outside the enum and a repeated item; then the
same Order in version 2. -/
theorem order_evolution_safe_regional :
    (∃ o₂, V2.parseFromString [0x3a, 2, 0x75, 0x73, 0x1a, 1, 0x61, 0x28, 9, 0x1a, 1, 0x62] = some o₂ ∧
      (⟨"", "", "b", 0, 9, none⟩ : V2.Order) = o₂) ∧
    V2.Order.serializeToString ⟨"", "", "b", 0, 9, none⟩ = some [0x1a, 1, 0x62, 0x28, 9] ∧
    V1.parseFromString [0x1a, 1, 0x62, 0x28, 9] = some ⟨⟨"", "", "b", 0, 9, none⟩, ""⟩ :=
  ⟨order_evolution_safe.1 _ ⟨⟨"", "", "b", 0, 9, none⟩, "us"⟩ (by rfl),
    order_evolution_safe.2 ⟨"", "", "b", 0, 9, none⟩ (by decide)⟩

end Shipstream.Orders
