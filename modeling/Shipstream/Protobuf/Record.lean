import Shipstream.Protobuf.Varint

/-! Wire records: a field number with a payload of one of the wire types 0, 1, 2 and 5.
A message body is a sequence of records in any order. -/
namespace Shipstream.Protobuf

inductive Payload where
  | varint (n : BitVec 64)
  | fixed64 (n : BitVec 64)
  | bytes (b : Bytes)
  | fixed32 (n : BitVec 32)
  deriving DecidableEq, Repr

structure Record where
  number : Nat
  payload : Payload
  deriving DecidableEq, Repr

/-- Field numbers the format allows: a tag fits into 32 bits and zero is illegal. -/
def FieldNumber (n : Nat) : Prop := 0 < n ∧ n < 2 ^ 29

instance (n : Nat) : Decidable (FieldNumber n) := inferInstanceAs (Decidable (_ ∧ _))

/-- A varint of at most ten bytes, taken modulo 2^64 as the format prescribes. -/
def readWord (b : Bytes) : Option (Nat × Bytes) :=
  (readVarint 10 b).map fun out => (out.1 % 2 ^ 64, out.2)

def writeWord (n : Nat) : Bytes := writeVarint 10 n

/-- A tag is a varint of at most five bytes, however small its value. -/
def readTag (b : Bytes) : Option (Nat × Bytes) := readVarint 5 b

def writeTag (n : Nat) : Bytes := writeVarint 5 n

/-- The payload announced by a wire type; the group types 3 and 4 and the
unassigned 6 and 7 are malformed. -/
def readPayload (wire : Nat) (b : Bytes) : Option (Payload × Bytes) :=
  match wire with
  | 0 => (readWord b).map fun out => (.varint (BitVec.ofNat 64 out.1), out.2)
  | 1 => (takeBytes 8 b).map fun out => (.fixed64 (BitVec.ofNat 64 (littleEndian out.1)), out.2)
  | 2 => (readWord b).bind fun len => (takeBytes len.1 len.2).map fun out => (.bytes out.1, out.2)
  | 5 => (takeBytes 4 b).map fun out => (.fixed32 (BitVec.ofNat 32 (littleEndian out.1)), out.2)
  | _ => none

/-- One record: the tag, then the payload of the tag's wire type. -/
def readRecord (b : Bytes) : Option (Record × Bytes) :=
  (readTag b).bind fun tag =>
    if FieldNumber (tag.1 / 8) then
      (readPayload (tag.1 % 8) tag.2).map fun out => (⟨tag.1 / 8, out.1⟩, out.2)
    else none

def readRecordsWithin : Nat → Bytes → Option (List Record)
  | _, [] => some []
  | 0, _ :: _ => none
  | fuel + 1, c :: b =>
    (readRecord (c :: b)).bind fun out => (readRecordsWithin fuel out.2).map (out.1 :: ·)

/-- The records of a whole body. Every record takes a byte, so the length is fuel enough. -/
def readRecords (b : Bytes) : Option (List Record) := readRecordsWithin b.length b

namespace Payload

def wireType : Payload → Nat
  | .varint _ => 0
  | .fixed64 _ => 1
  | .bytes _ => 2
  | .fixed32 _ => 5

def write : Payload → Bytes
  | .varint n => writeWord n.toNat
  | .fixed64 n => writeLittleEndian 8 n.toNat
  | .bytes b => writeWord b.length ++ b
  | .fixed32 n => writeLittleEndian 4 n.toNat

/-- A length prefix holds 64 bits. -/
def Fits : Payload → Prop
  | .bytes b => b.length < 2 ^ 64
  | _ => True

end Payload

def writeRecord (r : Record) : Bytes := writeTag (8 * r.number + r.payload.wireType) ++ r.payload.write

theorem readWord_writeWord (n : Nat) (h : n < 2 ^ 64) (rest : Bytes) :
    readWord (writeWord n ++ rest) = some (n, rest) := by
  rw [readWord, writeWord, readVarint_writeVarint 10 n (by omega) rest (by decide)]
  simpa using h

private theorem readWord_length {b rest : Bytes} {n : Nat} (h : readWord b = some (n, rest)) :
    rest.length < b.length := by
  obtain ⟨⟨m, tail⟩, hm, he⟩ := Option.map_eq_some_iff.mp h
  simp only [Prod.mk.injEq] at he
  exact he.2 ▸ readVarint_length hm

theorem Payload.read_write (p : Payload) (hp : p.Fits) (rest : Bytes) :
    readPayload p.wireType (p.write ++ rest) = some (p, rest) := by
  cases p with
  | varint n => simp [readPayload, wireType, write, readWord_writeWord n.toNat n.isLt]
  | fixed64 n =>
    have ht := takeBytes_append (writeLittleEndian 8 n.toNat) rest
    rw [writeLittleEndian_length] at ht
    have hn := littleEndian_write 8 n.toNat (by have := n.isLt; omega)
    simp [readPayload, wireType, write, ht, hn]
  | bytes b =>
    simp [readPayload, wireType, write, readWord_writeWord b.length hp, takeBytes_append]
  | fixed32 n =>
    have ht := takeBytes_append (writeLittleEndian 4 n.toNat) rest
    rw [writeLittleEndian_length] at ht
    have hn := littleEndian_write 4 n.toNat (by have := n.isLt; omega)
    simp [readPayload, wireType, write, ht, hn]

private theorem Payload.wireType_lt (p : Payload) : p.wireType < 8 := by
  cases p <;> simp [wireType]

theorem readRecord_writeRecord (r : Record) (hn : FieldNumber r.number) (hp : r.payload.Fits)
    (rest : Bytes) : readRecord (writeRecord r ++ rest) = some (r, rest) := by
  have hw := r.payload.wireType_lt
  have htag : 8 * r.number + r.payload.wireType < 128 ^ 5 := by have := hn.2; omega
  have hd : (8 * r.number + r.payload.wireType) / 8 = r.number := by omega
  have hm : (8 * r.number + r.payload.wireType) % 8 = r.payload.wireType := by omega
  rw [readRecord, writeRecord, List.append_assoc, readTag, writeTag,
    readVarint_writeVarint 5 _ htag _ (by decide)]
  simp only [Option.bind_some, hd, hm, if_pos hn, r.payload.read_write hp, Option.map_some]

private theorem readPayload_length {wire : Nat} {b rest : Bytes} {p : Payload}
    (h : readPayload wire b = some (p, rest)) : rest.length ≤ b.length := by
  unfold readPayload at h
  split at h
  · obtain ⟨⟨n, tail⟩, hn, he⟩ := Option.map_eq_some_iff.mp h
    simp only [Prod.mk.injEq] at he
    exact he.2 ▸ (readWord_length hn).le
  · obtain ⟨⟨a, tail⟩, ha, he⟩ := Option.map_eq_some_iff.mp h
    simp only [Prod.mk.injEq] at he
    exact he.2 ▸ takeBytes_length ha
  · obtain ⟨⟨n, mid⟩, hn, ht⟩ := Option.bind_eq_some_iff.mp h
    obtain ⟨⟨a, tail⟩, ha, he⟩ := Option.map_eq_some_iff.mp ht
    simp only [Prod.mk.injEq] at he
    exact he.2 ▸ (takeBytes_length ha).trans (readWord_length hn).le
  · obtain ⟨⟨a, tail⟩, ha, he⟩ := Option.map_eq_some_iff.mp h
    simp only [Prod.mk.injEq] at he
    exact he.2 ▸ takeBytes_length ha
  · cases h

private theorem readRecord_length {b rest : Bytes} {r : Record} (h : readRecord b = some (r, rest)) :
    rest.length < b.length := by
  obtain ⟨⟨tag, mid⟩, ht, hb⟩ := Option.bind_eq_some_iff.mp h
  split at hb
  · obtain ⟨⟨p, tail⟩, hp, he⟩ := Option.map_eq_some_iff.mp hb
    simp only [Prod.mk.injEq] at he
    exact he.2 ▸ (readPayload_length hp).trans_lt (readVarint_length ht)
  · cases hb

private theorem readRecordsWithin_of_le (fuel : Nat) (b : Bytes) (h : b.length ≤ fuel) :
    readRecordsWithin fuel b = readRecords b := by
  induction fuel using Nat.strongRecOn generalizing b with
  | ind fuel ih =>
    cases b with
    | nil => simp [readRecords, readRecordsWithin]
    | cons c b =>
      obtain ⟨fuel, rfl⟩ : ∃ k, fuel = k + 1 := ⟨fuel - 1, by simp at h; omega⟩
      simp only [List.length_cons] at h
      simp only [readRecords, List.length_cons, readRecordsWithin]
      apply Option.bind_congr
      intro out hout
      have hlen : out.2.length < (c :: b).length := readRecord_length (r := out.1) hout
      simp only [List.length_cons] at hlen
      rw [ih fuel (by omega) out.2 (by omega), ih b.length (by omega) out.2 (by omega)]

/-- The reader is the loop of the format: a record, then the rest of the body. -/
theorem readRecords_cons (c : UInt8) (b : Bytes) :
    readRecords (c :: b) =
      (readRecord (c :: b)).bind fun out => (readRecords out.2).map (out.1 :: ·) := by
  simp only [readRecords, List.length_cons, readRecordsWithin]
  apply Option.bind_congr
  intro out hout
  have hlen : out.2.length < (c :: b).length := readRecord_length (r := out.1) hout
  simp only [List.length_cons] at hlen
  rw [readRecordsWithin_of_le b.length out.2 (by omega), readRecords]

private theorem writeRecord_ne_nil (r : Record) : writeRecord r ≠ [] := by
  simp [writeRecord, writeTag, writeVarint_ne_nil]

theorem writeRecord_payload_length (n : Nat) (b : Bytes) :
    b.length ≤ (writeRecord ⟨n, .bytes b⟩).length := by
  simp only [writeRecord, Payload.write, List.length_append]
  omega

/-- A written body reads back as the records it was written from. -/
theorem readRecords_write (rs : List Record) (hr : ∀ r ∈ rs, FieldNumber r.number ∧ r.payload.Fits) :
    readRecords (rs.flatMap writeRecord) = some rs := by
  have within (fuel : Nat) (hf : rs.length ≤ fuel) :
      readRecordsWithin fuel (rs.flatMap writeRecord) = some rs := by
    induction rs generalizing fuel with
    | nil => simp [readRecordsWithin]
    | cons r rs ih =>
      obtain ⟨fuel, rfl⟩ : ∃ k, fuel = k + 1 := ⟨fuel - 1, by simp at hf; omega⟩
      obtain ⟨c, tail, hc⟩ := List.exists_cons_of_ne_nil (writeRecord_ne_nil r)
      have hread := readRecord_writeRecord r (hr r (by simp)).1 (hr r (by simp)).2 (rs.flatMap writeRecord)
      have hrest := ih (fun q hq => hr q (by simp [hq])) fuel (by simpa using hf)
      rw [List.flatMap_cons, hc, List.cons_append] at *
      simp only [readRecordsWithin, hread, Option.bind_some, hrest, Option.map_some]
  apply within
  clear within hr
  induction rs with
  | nil => simp
  | cons r rs ih =>
    have := List.length_pos_iff.mpr (writeRecord_ne_nil r)
    simp only [List.flatMap_cons, List.length_cons, List.length_append]
    omega

end Shipstream.Protobuf
