import Shipstream.Protobuf.Record

/-! Descriptor-driven proto3 messages. A descriptor lists the declared field
numbers of a message with their types; decoding absorbs the records of a body one by one. -/
namespace Shipstream.Protobuf

/-- Declared field numbers of a message, in the order they are written. -/
structure FieldNumbers where
  list : List Nat
  nodup : list.Nodup
  valid : ∀ n ∈ list, FieldNumber n

/-- The singular field types. `type` is only consulted at declared numbers. -/
inductive FieldType where
  | string
  | double
  | enum
  | int32
  | int64
  | message (declared : FieldNumbers) (type : Nat → FieldType)

/-- Values of the field types. A double is its IEEE bit pattern; enums are open,
so an enum is the number read. A message keeps the records it could not place. -/
inductive Value where
  | string (s : String)
  | double (bits : BitVec 64)
  | enum (n : BitVec 32)
  | int32 (n : BitVec 32)
  | int64 (n : BitVec 64)
  | message (fields : Nat → Option Value) (unknown : List Record)

/-- A message body being decoded. Scalar fields have implicit presence: holding
the default value and being absent are the same state. -/
structure Message where
  fields : Nat → Option Value
  unknown : List Record

structure Schema where
  declared : FieldNumbers
  type : Nat → FieldType

def utf8 (s : String) : Bytes := s.toUTF8.data.toList

/-- Strict UTF-8 validation, as proto3 strings require. -/
def ofUtf8 (b : Bytes) : Option String := String.fromUTF8? ⟨b.toArray⟩

@[simp] theorem ofUtf8_utf8 (s : String) : ofUtf8 (utf8 s) = some s := by
  have h : (⟨(utf8 s).toArray⟩ : ByteArray) = s.toUTF8 := by simp [utf8]
  rw [ofUtf8, h]
  simp only [String.fromUTF8?, String.toUTF8_eq_toByteArray, dif_pos s.isValidUTF8]
  rfl

namespace Value

/-- The value an absent scalar has. Sub-messages have explicit presence and no default. -/
def isDefault : Value → Bool
  | .string s => s == ""
  | .double bits => bits == 0
  | .enum n => n == 0
  | .int32 n => n == 0
  | .int64 n => n == 0
  | .message _ _ => false

def stored (v : Value) : Option Value := if v.isDefault then none else some v

end Value

namespace Message

def empty : Message := ⟨fun _ => none, []⟩

/-- The message already held by a field, to merge a further occurrence into. -/
def ofField : Option Value → Message
  | some (.message fields unknown) => ⟨fields, unknown⟩
  | _ => empty

def keepUnknown (m : Message) (r : Record) : Message := { m with unknown := m.unknown ++ [r] }

def set (m : Message) (n : Nat) (v : Value) : Message :=
  { m with fields := Function.update m.fields n v.stored }

end Message

/-- What a declared field does with a payload. -/
inductive Absorbed where
  | malformed
  | unexpected
  | value (v : Value)

/-- Offer one record to a message: undeclared numbers and unexpected wire types are kept unread. -/
def offer (declared : List Nat) (absorb : Nat → Option Value → Payload → Absorbed)
    (m : Message) (r : Record) : Option Message :=
  if r.number ∈ declared then
    match absorb r.number (m.fields r.number) r.payload with
    | .malformed => none
    | .unexpected => some (m.keepUnknown r)
    | .value v => some (m.set r.number v)
  else some (m.keepUnknown r)

/-- A later scalar replaces the earlier one; a later sub-message is merged into it. -/
def absorb : FieldType → Option Value → Payload → Absorbed
  | .string, _, .bytes b =>
    match ofUtf8 b with
    | some s => .value (.string s)
    | none => .malformed
  | .double, _, .fixed64 n => .value (.double n)
  | .enum, _, .varint n => .value (.enum (n.truncate 32))
  | .int32, _, .varint n => .value (.int32 (n.truncate 32))
  | .int64, _, .varint n => .value (.int64 n)
  | .message declared type, old, .bytes b =>
    match (readRecords b).bind
      fun rs => rs.foldlM (offer declared.list fun n => absorb (type n)) (Message.ofField old) with
    | some m => .value (.message m.fields m.unknown)
    | none => .malformed
  | _, _, _ => .unexpected

namespace Schema

def step (S : Schema) : Message → Record → Option Message :=
  offer S.declared.list fun n => absorb (S.type n)

/-- Decode a whole body, from the empty message. -/
def decode (S : Schema) (b : Bytes) : Option Message :=
  (readRecords b).bind fun rs => rs.foldlM S.step Message.empty

end Schema

/-- The record a present field is written as. -/
def fieldRecord (payload : Nat → Value → Option Payload) (fields : Nat → Option Value) (n : Nat) :
    Option Record :=
  (fields n).bind fun v => (payload n v).map (Record.mk n)

/-- The records of a message body: its present fields in declaration order, then
the records kept unread. -/
def bodyRecords (declared : List Nat) (payload : Nat → Value → Option Payload)
    (fields : Nat → Option Value) (unknown : List Record) : List Record :=
  declared.filterMap (fieldRecord payload fields) ++ unknown

/-- The payload a value is written as. Enums and int32 are sign-extended varints. -/
def payload : FieldType → Value → Option Payload
  | .string, .string s => some (.bytes (utf8 s))
  | .double, .double bits => some (.fixed64 bits)
  | .enum, .enum n => some (.varint (n.signExtend 64))
  | .int32, .int32 n => some (.varint (n.signExtend 64))
  | .int64, .int64 n => some (.varint n)
  | .message declared type, .message fields unknown =>
    some (.bytes ((bodyRecords declared.list (fun n => payload (type n)) fields unknown).flatMap writeRecord))
  | _, _ => none

namespace Schema

def records (S : Schema) (m : Message) : List Record :=
  bodyRecords S.declared.list (fun n => payload (S.type n)) m.fields m.unknown

def encode (S : Schema) (m : Message) : Bytes := (S.records m).flatMap writeRecord

end Schema

/-- A value of the given type that no unread record hides in, with absent
fields for defaults. -/
def HasType : FieldType → Value → Prop
  | .string, .string _ => True
  | .double, .double _ => True
  | .enum, .enum _ => True
  | .int32, .int32 _ => True
  | .int64, .int64 _ => True
  | .message declared type, .message fields unknown =>
    unknown = [] ∧ ∀ n v, fields n = some v → n ∈ declared.list ∧ v.isDefault = false ∧ HasType (type n) v
  | _, _ => False

/-- Messages a program can build from a schema without unknown fields. -/
def Schema.Typed (S : Schema) (m : Message) : Prop :=
  m.unknown = [] ∧
    ∀ n v, m.fields n = some v → n ∈ S.declared.list ∧ v.isDefault = false ∧ HasType (S.type n) v

end Shipstream.Protobuf
