import Shipstream.Kafka.Poll
import Shipstream.Orders.Compatibility

/-! The registry envelope around a serialized message: a zero byte, a four-byte schema id and the
path of message indexes, then the protobuf body. -/
namespace Shipstream.Orders
open Protobuf Kafka

/-- A varint of any length, as the client's `_read_varint` takes it. -/
def readUnboundedVarint (b : Bytes) : Option (Nat × Bytes) := readVarint b.length b

def unzigzag (n : Nat) : Int := if n % 2 = 0 then n / 2 else -(n / 2) - 1

/-- The indexes name the writer's message type; the reader's class parses the body whichever it is. -/
def skipIndexes : Nat → Bytes → Option Bytes
  | 0, b => some b
  | size + 1, b => (readUnboundedVarint b).bind fun out => skipIndexes size out.2

/-- `_read_index_array`: a count, zigzag-encoded, and as many indexes; a count of 0 is short for
the first message of the schema. -/
def readIndexArray (b : Bytes) : Except String Bytes :=
  match readUnboundedVarint b with
  | none => .error "Unexpected EOF while reading index"
  | some (n, rest) =>
    if unzigzag n < 0 ∨ 100000 < unzigzag n then .error "Invalid Protobuf msgidx array length"
    else
      match skipIndexes (unzigzag n).toNat rest with
      | none => .error "Unexpected EOF while reading index"
      | some body => .ok body

/-- The protobuf body of a framed value. -/
def framedBody (raw : Bytes) : Except String Bytes :=
  if raw.length < 6 then
    .error ("Expecting data framing of length 6 bytes or more but total data size is " ++ toString raw.length ++
      " bytes. This message was not produced with a Confluent Schema Registry serializer")
  else if raw.head? ≠ some 0 then
    .error "Unknown magic byte. This message was not produced with a Confluent Schema Registry serializer"
  else readIndexArray (raw.drop 5)

/-- `ProtobufDeserializer` as the readers use it, for a generated class. -/
def registryDeserializer {α : Type} (C : MessageClass α) : Deserializer α
  | none => .ok none
  | some raw =>
    match framedBody raw with
    | .error text => .error text
    | .ok body =>
      match C.parseFromString body with
      | some object => .ok (some object)
      | none => .error ("Error parsing message with type '" ++ C.fullName ++ "'")

/-- A value is read as an object just when its body parses to it, so no object is ever missing. -/
theorem registryDeserializer_eq_ok {α : Type} {C : MessageClass α} {raw : Bytes} {out : Option α} :
    registryDeserializer C (some raw) = .ok out ↔
      ∃ body object, framedBody raw = .ok body ∧ C.parseFromString body = some object ∧ out = some object := by
  simp only [registryDeserializer]
  cases framedBody raw with
  | error text => simp
  | ok body =>
    cases hobject : C.parseFromString body with
    | none => simp [hobject]
    | some object => simp [hobject, eq_comm]

theorem registryDeserializer_ne_none {α : Type} {C : MessageClass α} (raw : Bytes) :
    registryDeserializer C (some raw) ≠ .ok none := by
  intro h
  obtain ⟨_, _, -, -, hnone⟩ := registryDeserializer_eq_ok.mp h
  cases hnone

/-- Version 2 of `deserializer` reads whatever version 1 reads, up to the region. -/
def ReadsAlike (deserializerV1 : Deserializer V1.Order) (deserializerV2 : Deserializer V2.Order) : Prop :=
  ∀ value o₁, deserializerV1 value = .ok (some o₁) → deserializerV2 value = .ok (some o₁.toOrder)

/-- The real deserializers read alike, since deleting the region is a safe change. -/
theorem registryDeserializer_readsAlike :
    ReadsAlike (registryDeserializer V1.orderClass) (registryDeserializer V2.orderClass) := by
  intro value o₁ h
  cases value with
  | none => cases h
  | some raw =>
    obtain ⟨body, object, hbody, hobject, he⟩ := registryDeserializer_eq_ok.mp h
    cases he
    obtain ⟨o₂, h₂, rfl⟩ := V2.parseFromString_of_v1 hobject
    exact registryDeserializer_eq_ok.mpr ⟨body, _, hbody, h₂, rfl⟩

end Shipstream.Orders
