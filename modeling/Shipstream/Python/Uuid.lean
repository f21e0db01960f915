import Shipstream.Python.Text

/-! `uuid.uuid4` and the text form of a UUID. -/
namespace Shipstream.Python

/-- `'%0*x' % (width, n)` for an `n` of at most `width` digits. -/
def hex : Nat → Nat → Text
  | 0, _ => []
  | width + 1, n => hex width (n / 16) ++ [(n % 16).digitChar]

/-- `uuid4`: sixteen random bytes with the variant and the version written over them. -/
def uuid4 (random : BitVec 128) : BitVec 128 :=
  let variant := (random &&& ~~~(0xc000#128 <<< 48)) ||| (0x8000#128 <<< 48)
  (variant &&& ~~~(0xf000#128 <<< 64)) ||| (4#128 <<< 76)

/-- `UUID.__str__` -/
def uuidText (uuid : BitVec 128) : Text :=
  let digits := hex 32 uuid.toNat
  digits.take 8 ++ ['-'] ++ (digits.drop 8).take 4 ++ ['-'] ++ (digits.drop 12).take 4 ++ ['-'] ++
    (digits.drop 16).take 4 ++ ['-'] ++ digits.drop 20

/-- `str(uuid.uuid4())` -/
def uuid4String (random : BitVec 128) : String := String.ofList (uuidText (uuid4 random))

theorem hex_length (width n : Nat) : (hex width n).length = width := by
  induction width generalizing n with
  | zero => rfl
  | succ width ih => simp [hex, ih]

private theorem digitChar_utf8Size : ∀ n < 16, n.digitChar.utf8Size = 1 := by decide

private theorem hex_utf8Size (width n : Nat) : ∀ c ∈ hex width n, c.utf8Size = 1 := by
  induction width generalizing n with
  | zero => simp [hex]
  | succ width ih =>
    intro c hc
    rw [hex, List.mem_append, List.mem_singleton] at hc
    rcases hc with hc | rfl
    · exact ih _ c hc
    · exact digitChar_utf8Size _ (Nat.mod_lt n (by decide))

private theorem utf8ByteSize_ofList {text : Text} (h : ∀ c ∈ text, c.utf8Size = 1) :
    (String.ofList text).utf8ByteSize = text.length := by
  induction text with
  | nil => rfl
  | cons c text ih =>
    have hsplit : String.ofList (c :: text) = String.singleton c ++ String.ofList text := by
      apply String.toList_injective
      simp
    rw [hsplit, String.utf8ByteSize_append, String.utf8ByteSize_singleton, h c (by simp),
      ih fun d hd => h d (by simp [hd]), List.length_cons, Nat.add_comm]

private theorem uuidText_utf8Size (uuid : BitVec 128) : ∀ c ∈ uuidText uuid, c.utf8Size = 1 := by
  have hdigits := hex_utf8Size 32 uuid.toNat
  rw [uuidText]
  generalize hex 32 uuid.toNat = digits at hdigits
  have htake (i n : Nat) : ∀ c ∈ (digits.drop i).take n, c.utf8Size = 1 := fun c hc =>
    hdigits c (List.mem_of_mem_drop (List.mem_of_mem_take hc))
  have hfirst : ∀ c ∈ digits.take 8, c.utf8Size = 1 := fun c hc => hdigits c (List.mem_of_mem_take hc)
  have hlast : ∀ c ∈ digits.drop 20, c.utf8Size = 1 := fun c hc => hdigits c (List.mem_of_mem_drop hc)
  have hdash : ∀ c ∈ ['-'], c.utf8Size = 1 := List.forall_mem_singleton.mpr rfl
  simp only [List.forall_mem_append]
  exact ⟨⟨⟨⟨⟨⟨⟨⟨hfirst, hdash⟩, htake 8 4⟩, hdash⟩, htake 12 4⟩, hdash⟩, htake 16 4⟩, hdash⟩, hlast⟩

/-- The text form is 36 bytes, whatever the random bits. -/
theorem uuid4String_size (random : BitVec 128) : (uuid4String random).utf8ByteSize = 36 := by
  rw [uuid4String, utf8ByteSize_ofList (uuidText_utf8Size _)]
  simp [uuidText, hex_length]

/-- The version is the thirteenth digit, the variant the first of the fourth group. -/
example : uuid4String 0x5f0c2a4e8d1b3c67da3e1f2b3c4d5e6f = "5f0c2a4e-8d1b-4c67-9a3e-1f2b3c4d5e6f" := by decide

end Shipstream.Python
