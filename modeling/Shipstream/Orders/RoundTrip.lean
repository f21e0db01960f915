import Shipstream.Orders.Envelope
import Shipstream.Protobuf.Size

/-! The registry envelope written around an object of a generated class, and the time stamps and
sizes of the objects that the producers build. -/
namespace Shipstream.Orders
open Protobuf

/-- `ProtobufSerializer`: the magic byte, the schema id, the index of the first message, the body. -/
def registrySerializer {α : Type} (C : MessageClass α) (schemaId : BitVec 32) (object : α) : Option Bytes :=
  (C.serializeToString object).map fun body =>
    [0, UInt8.ofNat (schemaId.toNat / 2 ^ 24), UInt8.ofNat (schemaId.toNat / 2 ^ 16),
      UInt8.ofNat (schemaId.toNat / 2 ^ 8), UInt8.ofNat schemaId.toNat, 0] ++ body

theorem registrySerializer_of_body {α : Type} (C : MessageClass α) (schemaId : BitVec 32) {object : α} {body : Bytes}
    (h : C.serializeToString object = some body) :
    ∃ b, registrySerializer C schemaId object = some b ∧ b.length = body.length + 6 := by
  refine ⟨_, by rw [registrySerializer, h]; rfl, ?_⟩
  rw [List.length_append, Nat.add_comm]
  rfl

private theorem readIndexArray_first (body : Bytes) : readIndexArray (0 :: body) = .ok body := rfl

/-- The deserializer takes off what the serializer has put on. -/
theorem registryDeserializer_serializer {α : Type} (C : MessageClass α) {schemaId : BitVec 32} {object : α}
    {b : Bytes} (h : registrySerializer C schemaId object = some b) :
    registryDeserializer C (some b) = .ok (some object) := by
  obtain ⟨body, hbody, rfl⟩ := Option.map_eq_some_iff.mp h
  refine registryDeserializer_eq_ok.mpr ⟨body, object, ?_, C.parse_serialize hbody, rfl⟩
  rw [framedBody, if_neg (by simp), if_neg (by simp)]
  exact readIndexArray_first body

/-! Time stamps. -/

/-- Where `_CheckTimestampValid` stops: from the year 1 to the year 9999. -/
def Timestamp.ValidSeconds (seconds : Int) : Prop := -62135596800 ≤ seconds ∧ seconds ≤ 253402300799

instance (seconds : Int) : Decidable (Timestamp.ValidSeconds seconds) := inferInstanceAs (Decidable (_ ∧ _))

/-- `Timestamp.FromMilliseconds`; none is the ValueError of a time outside the range. -/
def Timestamp.fromMilliseconds (milliseconds : Int) : Option Timestamp :=
  if ValidSeconds (milliseconds / 1000) then
    some { seconds := BitVec.ofInt 64 (milliseconds / 1000), nanos := BitVec.ofInt 32 (milliseconds % 1000 * 1000000) }
  else none

theorem Timestamp.fromMilliseconds_eq_none {milliseconds : Int} :
    fromMilliseconds milliseconds = none ↔ ¬ ValidSeconds (milliseconds / 1000) := by
  rw [fromMilliseconds]
  split <;> simp [*]

/-- No millisecond is lost, and the nanos are in their range. -/
theorem Timestamp.fromMilliseconds_spec {milliseconds : Int} {t : Timestamp}
    (h : fromMilliseconds milliseconds = some t) :
    0 ≤ t.nanos.toInt ∧ t.nanos.toInt < 1000000000 ∧
      t.seconds.toInt * 1000 + t.nanos.toInt / 1000000 = milliseconds := by
  rw [fromMilliseconds] at h
  split at h
  · next hvalid =>
    cases h
    obtain ⟨hlow, hhigh⟩ := hvalid
    have hseconds : (BitVec.ofInt 64 (milliseconds / 1000)).toInt = milliseconds / 1000 := by
      rw [BitVec.toInt_ofInt, Int.bmod_eq_of_le] <;> omega
    have hnanos : (BitVec.ofInt 32 (milliseconds % 1000 * 1000000)).toInt = milliseconds % 1000 * 1000000 := by
      rw [BitVec.toInt_ofInt, Int.bmod_eq_of_le] <;> omega
    simp only [hseconds, hnanos]
    omega
  · cases h

/-! How long the payloads of stored fields are. -/

theorem payload_string_length {s : String} {n : Nat} (h : s.utf8ByteSize ≤ n) {v : Value} {p : Payload}
    (hv : (Value.string s).stored = some v) (hp : payload .string v = some p) : p.write.length ≤ 10 + n := by
  obtain ⟨rfl, -⟩ := stored_eq_some hv
  cases hp
  have hlen := Payload.write_bytes_length_le (utf8 s)
  rw [utf8_length] at hlen
  omega

theorem payload_timestamp_length (t : Timestamp) {p : Payload} (hp : payload timestamp t.toValue = some p) :
    p.write.length ≤ 40 := by
  refine (payload_message_length hp fun n v q hv hq => ?_ : p.write.length ≤ 10 + 2 * (5 + 10))
  simp only [Timestamp.fields] at hv
  split at hv
  case h_3 => cases hv
  all_goals
    obtain ⟨rfl, -⟩ := stored_eq_some hv
    cases hq
    exact Payload.write_varint_length_le _

end Shipstream.Orders
