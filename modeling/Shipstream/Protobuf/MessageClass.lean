import Shipstream.Protobuf.Evolution

/-! A generated class: a descriptor with typed objects that are put into messages and read back.
What a class serializes every class with at least its fields reads unchanged. -/
namespace Shipstream.Protobuf

structure MessageClass (α : Type) where
  fullName : String
  schema : Schema
  toMessage : α → Message
  ofMessage : Message → α
  typed : ∀ a, schema.Typed (toMessage a)
  ofMessage_toMessage : ∀ a, ofMessage (toMessage a) = a

namespace MessageClass
variable {α : Type} (C : MessageClass α) {S : Schema} {a : α} {b : Bytes}

def parseFromString (b : Bytes) : Option α := (C.schema.decode b).map C.ofMessage

/-- Serialization refuses messages of 2 GiB and more. -/
def serializeToString (a : α) : Option Bytes :=
  let b := C.schema.encode (C.toMessage a)
  if b.length < 2 ^ 31 then some b else none

theorem serializeToString_spec (h : C.serializeToString a = some b) :
    b = C.schema.encode (C.toMessage a) ∧ b.length < 2 ^ 31 := by
  simp only [serializeToString] at h
  split at h
  · next hlen =>
    cases h
    exact ⟨rfl, hlen⟩
  · cases h

/-- A descriptor with more fields decodes a serialized object to the object's own message. -/
theorem decode_serialize (hS : S.Extends C.schema) (h : C.serializeToString a = some b) :
    S.decode b = some (C.toMessage a) := by
  obtain ⟨rfl, hlen⟩ := C.serializeToString_spec h
  exact hS.decode_encode (C.typed a) (by omega)

theorem parse_serialize (h : C.serializeToString a = some b) : C.parseFromString b = some a := by
  rw [parseFromString, C.decode_serialize (.refl C.schema) h, Option.map_some, C.ofMessage_toMessage]

end MessageClass
end Shipstream.Protobuf
