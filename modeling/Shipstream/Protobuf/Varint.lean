import Mathlib.Tactic

/-! Base-128 varints and little-endian words over byte lists.
Readers return the value with the unread tail; every round trip allows a tail. -/
namespace Shipstream.Protobuf

abbrev Bytes := List UInt8

/-- Seven value bits a byte, low group first; the reader gives up after `width` bytes. -/
def readVarint : Nat → Bytes → Option (Nat × Bytes)
  | 0, _ => none
  | _ + 1, [] => none
  | width + 1, b :: rest =>
    if b.toNat < 128 then some (b.toNat, rest)
    else (readVarint width rest).map fun out => (b.toNat % 128 + 128 * out.1, out.2)

/-- The shortest encoding, cut off after `width` bytes. -/
def writeVarint : Nat → Nat → Bytes
  | 0, _ => []
  | width + 1, n =>
    if n < 128 then [UInt8.ofNat n]
    else UInt8.ofNat (n % 128 + 128) :: writeVarint width (n / 128)

theorem writeVarint_ne_nil (width n : Nat) : writeVarint (width + 1) n ≠ [] := by
  unfold writeVarint
  split <;> simp

theorem readVarint_writeVarint (width n : Nat) (h : n < 128 ^ width) (rest : Bytes) (hw : 0 < width) :
    readVarint width (writeVarint width n ++ rest) = some (n, rest) := by
  induction width generalizing n with
  | zero => omega
  | succ width ih =>
    unfold writeVarint
    split
    · next hn =>
      have hb : (UInt8.ofNat n).toNat = n := by simp; omega
      simp only [List.singleton_append, readVarint, hb, if_pos hn]
    · next hn =>
      have hb : (UInt8.ofNat (n % 128 + 128)).toNat = n % 128 + 128 := by simp; omega
      have hq : n / 128 < 128 ^ width := by
        rw [pow_succ] at h
        exact Nat.div_lt_of_lt_mul (by rwa [Nat.mul_comm] at h)
      have hpos : 0 < width := by
        rcases Nat.eq_zero_or_pos width with rfl | hp
        · simp at hq; omega
        · exact hp
      simp only [List.cons_append, readVarint, hb, ih _ hq hpos, Option.map_some]
      rw [if_neg (by omega)]
      congr 2
      omega

/-- A successful read consumes at least one byte. -/
theorem readVarint_length {width : Nat} {b rest : Bytes} {n : Nat}
    (h : readVarint width b = some (n, rest)) : rest.length < b.length := by
  induction width generalizing b n rest with
  | zero => simp [readVarint] at h
  | succ width ih =>
    cases b with
    | nil => simp [readVarint] at h
    | cons c b =>
      simp only [readVarint] at h
      split at h
      · simp only [Option.some.injEq, Prod.mk.injEq] at h
        simp [h.2]
      · obtain ⟨⟨m, tail⟩, hm, he⟩ := Option.map_eq_some_iff.mp h
        simp only [Prod.mk.injEq] at he
        have := ih hm
        simp only [List.length_cons, ← he.2]
        omega

/-- Little-endian value of a byte list. -/
def littleEndian : Bytes → Nat
  | [] => 0
  | b :: rest => b.toNat + 256 * littleEndian rest

def writeLittleEndian : Nat → Nat → Bytes
  | 0, _ => []
  | width + 1, n => UInt8.ofNat n :: writeLittleEndian width (n / 256)

@[simp] theorem writeLittleEndian_length (width n : Nat) : (writeLittleEndian width n).length = width := by
  induction width generalizing n with
  | zero => rfl
  | succ width ih => simp [writeLittleEndian, ih]

theorem littleEndian_write (width n : Nat) (h : n < 256 ^ width) :
    littleEndian (writeLittleEndian width n) = n := by
  induction width generalizing n with
  | zero => simp at h; simp [writeLittleEndian, littleEndian, h]
  | succ width ih =>
    have hq : n / 256 < 256 ^ width := by
      rw [pow_succ] at h
      exact Nat.div_lt_of_lt_mul (by rwa [Nat.mul_comm] at h)
    have hb : (UInt8.ofNat n).toNat = n % 256 := by simp
    simp only [writeLittleEndian, littleEndian, ih _ hq, hb]
    omega

/-- The next `n` bytes, when there are that many. -/
def takeBytes (n : Nat) (b : Bytes) : Option (Bytes × Bytes) :=
  if n ≤ b.length then some (b.take n, b.drop n) else none

theorem takeBytes_append (a rest : Bytes) : takeBytes a.length (a ++ rest) = some (a, rest) := by
  simp [takeBytes]

theorem takeBytes_length {n : Nat} {b a rest : Bytes} (h : takeBytes n b = some (a, rest)) :
    rest.length ≤ b.length := by
  unfold takeBytes at h
  split at h
  · simp only [Option.some.injEq, Prod.mk.injEq] at h
    simp [← h.2]
  · cases h

end Shipstream.Protobuf
