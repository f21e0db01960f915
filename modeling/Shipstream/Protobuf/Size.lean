import Shipstream.Protobuf.Message

/-! How long an encoded message can get, from bounds on its payloads. -/
namespace Shipstream.Protobuf

theorem writeVarint_length_le (width n : Nat) : (writeVarint width n).length ≤ width := by
  induction width generalizing n with
  | zero => exact Nat.le_refl 0
  | succ width ih =>
    unfold writeVarint
    split
    · simp
    · simpa using ih (n / 128)

private theorem writeWord_length_le (n : Nat) : (writeWord n).length ≤ 10 := writeVarint_length_le 10 n

theorem utf8_length (s : String) : (utf8 s).length = s.utf8ByteSize := by
  rw [utf8, Array.length_toList]
  exact s.size_toByteArray

namespace Payload

theorem write_bytes_length_le (b : Bytes) : (Payload.bytes b).write.length ≤ 10 + b.length := by
  rw [write, List.length_append]
  exact Nat.add_le_add_right (writeWord_length_le _) _

theorem write_varint_length_le (n : BitVec 64) : (Payload.varint n).write.length ≤ 10 := writeWord_length_le _

theorem write_fixed64_length (n : BitVec 64) : (Payload.fixed64 n).write.length = 8 :=
  writeLittleEndian_length 8 n.toNat

end Payload

theorem writeRecord_length_le (r : Record) : (writeRecord r).length ≤ 5 + r.payload.write.length := by
  rw [writeRecord, List.length_append]
  exact Nat.add_le_add_right (writeVarint_length_le 5 _) _

/-- A message without unread records takes at most a tag and a payload for each declared field. -/
theorem Schema.encode_length_le (S : Schema) (fields : Nat → Option Value) {bound : Nat}
    (h : ∀ n v p, fields n = some v → payload (S.type n) v = some p → p.write.length ≤ bound) :
    (S.encode ⟨fields, []⟩).length ≤ S.declared.list.length * (5 + bound) := by
  rw [encode, records, bodyRecords, List.append_nil, List.length_flatMap]
  have heach : ∀ k ∈ (S.declared.list.filterMap
      (fieldRecord (fun n => payload (S.type n)) fields)).map (List.length ∘ writeRecord), k ≤ 5 + bound := by
    intro k hk
    obtain ⟨r, hr, rfl⟩ := List.mem_map.mp hk
    obtain ⟨n, -, hn⟩ := List.mem_filterMap.mp hr
    obtain ⟨v, hv, hmap⟩ := Option.bind_eq_some_iff.mp hn
    obtain ⟨p, hp, rfl⟩ := Option.map_eq_some_iff.mp hmap
    exact (writeRecord_length_le _).trans (Nat.add_le_add_left (h n v p hv hp) 5)
  have hsum := List.sum_le_card_nsmul _ _ heach
  rw [List.length_map, smul_eq_mul] at hsum
  exact hsum.trans (Nat.mul_le_mul_right _ (List.length_filterMap_le _ _))

/-- So does a sub-message, behind its own length. -/
theorem payload_message_length {declared : FieldNumbers} {type : Nat → FieldType} {fields : Nat → Option Value}
    {bound : Nat} {p : Payload} (hp : payload (.message declared type) (.message fields []) = some p)
    (h : ∀ n v q, fields n = some v → payload (type n) v = some q → q.write.length ≤ bound) :
    p.write.length ≤ 10 + declared.list.length * (5 + bound) := by
  cases hp
  have hlen := Schema.encode_length_le ⟨declared, type⟩ fields h
  exact (Payload.write_bytes_length_le _).trans (Nat.add_le_add_left hlen 10)

end Shipstream.Protobuf
