import Mathlib.Data.List.DropRight
import Mathlib.Tactic

/-! Python's text operations on sequences of characters, and what they give back of text
that was joined from words and lines. -/
namespace Shipstream.Python

abbrev Text := List Char

/-- The characters that `str.split` and `str.strip` take for whitespace. -/
def isSpace (c : Char) : Bool :=
  (0x09 ≤ c.toNat && c.toNat ≤ 0x0d) || (0x1c ≤ c.toNat && c.toNat ≤ 0x20) ||
    (0x2000 ≤ c.toNat && c.toNat ≤ 0x200a) ||
    [0x85, 0xa0, 0x1680, 0x2028, 0x2029, 0x202f, 0x205f, 0x3000].contains c.toNat

/-- The characters that end a line for `str.splitlines`. -/
def isLineBreak (c : Char) : Bool :=
  (0x0a ≤ c.toNat && c.toNat ≤ 0x0d) || (0x1c ≤ c.toNat && c.toNat ≤ 0x1e) ||
    [0x85, 0x2028, 0x2029].contains c.toNat

def splitlines : Text → List Text
  | [] => []
  | '\r' :: '\n' :: text => [] :: splitlines text
  | c :: text =>
    if isLineBreak c then [] :: splitlines text
    else match splitlines text with
      | [] => [[c]]
      | line :: lines => (c :: line) :: lines

/-- `text.split()`: the runs of characters that are not whitespace. -/
def split (text : Text) : List Text := (text.splitOnP isSpace).filter (· ≠ [])

def strip (text : Text) : Text := (text.dropWhile isSpace).rdropWhile isSpace

def digit? (c : Char) : Option Nat := if c.isDigit then some (c.toNat - '0'.toNat) else none

/-- The digits after the first one; single underscores may stand between digits. -/
def moreDigits (n : Nat) : Text → Option Nat
  | [] => some n
  | '_' :: c :: text => (digit? c).bind fun d => moreDigits (10 * n + d) text
  | c :: text => (digit? c).bind fun d => moreDigits (10 * n + d) text

def natural : Text → Option Nat
  | [] => none
  | c :: text => (digit? c).bind fun d => moreDigits d text

/-- `int(text)`; none where it raises a ValueError. Digits outside ASCII are left out, and so
is the interpreter's limit on their number, which lies far above a 64-bit number's. -/
def int (text : Text) : Option Int :=
  match strip text with
  | '-' :: digits => (natural digits).map fun (n : Nat) => -(n : Int)
  | '+' :: digits => (natural digits).map Int.ofNat
  | digits => (natural digits).map Int.ofNat

/-- A number in decimal notation. -/
def decimal : Int → Text
  | .ofNat n => Nat.toDigits 10 n
  | .negSucc n => '-' :: Nat.toDigits 10 (n + 1)

/-- Python's `{text:<width}`. -/
def leftAligned (width : Nat) (text : String) : String :=
  text ++ String.ofList (List.replicate (width - text.length) ' ')

/-! Splitting at whitespace. -/

/-- A non-empty run of characters that are not whitespace. -/
def IsWord (text : Text) : Prop := text ≠ [] ∧ ∀ c ∈ text, isSpace c = false

instance (text : Text) : Decidable (IsWord text) :=
  decidable_of_iff (text ≠ [] ∧ text.all (fun c => !isSpace c) = true) (by simp [IsWord])

theorem split_nil : split [] = [] := rfl

theorem split_append_cons {c : Char} (hc : isSpace c = true) (x y : Text) :
    split (x ++ c :: y) = split x ++ split y := by
  rw [split, split, split, List.splitOnP_append_cons x y hc, List.filter_append]

theorem split_word {w : Text} (hw : IsWord w) : split w = [w] := by
  rw [split, List.splitOnP_eq_singleton hw.2]
  simp [hw.1]

theorem IsWord.append {x y : Text} (hx : IsWord x) (hy : IsWord y) : IsWord (x ++ y) :=
  ⟨by simp [hx.1], fun c hc => (List.mem_append.mp hc).elim (hx.2 c) (hy.2 c)⟩

/-- Blanks between two columns of a line. -/
structure Gap where
  blanks : Text
  nonempty : blanks ≠ []
  blank : ∀ c ∈ blanks, c = ' ' ∨ c = '\t'

theorem Gap.isSpace (gap : Gap) : ∀ c ∈ gap.blanks, isSpace c = true := fun c hc => by
  rcases gap.blank c hc with rfl | rfl <;> decide

theorem split_gap (gap : Gap) (x y : Text) : split (x ++ gap.blanks ++ y) = split x ++ split y := by
  have hspaces : ∀ blanks : Text, (∀ c ∈ blanks, Python.isSpace c = true) → split (blanks ++ y) = split y := by
    intro blanks h
    induction blanks with
    | nil => rfl
    | cons c blanks ih =>
      have hcons := split_append_cons (h c List.mem_cons_self) [] (blanks ++ y)
      rw [List.nil_append, split_nil, List.nil_append] at hcons
      rw [List.cons_append, hcons]
      exact ih fun d hd => h d (List.mem_cons_of_mem _ hd)
  obtain ⟨c, blanks, hgap⟩ := List.exists_cons_of_ne_nil gap.nonempty
  have hall := gap.isSpace
  rw [hgap] at hall ⊢
  rw [List.append_assoc, List.cons_append, split_append_cons (hall c List.mem_cons_self),
    hspaces blanks fun d hd => hall d (List.mem_cons_of_mem _ hd)]

/-- Columns with a gap between each two; `gap k` stands where `k` columns are still to come. -/
def joinColumns (gap : Nat → Gap) : List Text → Text
  | [] => []
  | [column] => column
  | column :: columns => column ++ (gap columns.length).blanks ++ joinColumns gap columns

theorem joinColumns_cons_cons (gap : Nat → Gap) (column next : Text) (columns : List Text) :
    joinColumns gap (column :: next :: columns) =
      column ++ (gap (columns.length + 1)).blanks ++ joinColumns gap (next :: columns) := rfl

/-- Splitting a line splits each of its columns. -/
theorem split_joinColumns (gap : Nat → Gap) (columns : List Text) :
    split (joinColumns gap columns) = columns.flatMap split := by
  induction columns with
  | nil => rfl
  | cons column columns ih =>
    cases columns with
    | nil => simp [joinColumns]
    | cons next columns => rw [joinColumns_cons_cons, split_gap, ih, ← List.flatMap_cons]

/-! Splitting into lines, and stripping. -/

private theorem isSpace_of_isLineBreak {c : Char} (h : isLineBreak c = true) : isSpace c = true := by
  simp only [isLineBreak, isSpace, Bool.or_eq_true, Bool.and_eq_true, decide_eq_true_eq, List.contains_eq_mem,
    List.mem_cons, List.not_mem_nil, or_false] at h ⊢
  omega

/-- A line on its own: it holds a character and no line break. -/
def IsLine (text : Text) : Prop := text ≠ [] ∧ ∀ c ∈ text, isLineBreak c = false

def joinLines : List Text → Text
  | [] => []
  | [line] => line
  | line :: lines => line ++ '\n' :: joinLines lines

private theorem splitlines_cons {c : Char} (hc : isLineBreak c = false) (text : Text) :
    splitlines (c :: text) = match splitlines text with
      | [] => [[c]]
      | line :: lines => (c :: line) :: lines := by
  rw [splitlines, if_neg (by simp [hc])]
  intro rest hr
  rw [hr] at hc
  exact absurd hc (by decide)

private theorem splitlines_line {line : Text} (h : IsLine line) : splitlines line = [line] := by
  obtain ⟨hne, hbreak⟩ := h
  induction line with
  | nil => exact absurd rfl hne
  | cons c line ih =>
    rw [splitlines_cons (hbreak c List.mem_cons_self)]
    cases line with
    | nil => rfl
    | cons d line => rw [ih (List.cons_ne_nil d line) fun x hx => hbreak x (List.mem_cons_of_mem c hx)]

private theorem splitlines_append {line : Text} (h : ∀ c ∈ line, isLineBreak c = false) (text : Text) :
    splitlines (line ++ '\n' :: text) = line :: splitlines text := by
  induction line with
  | nil => rfl
  | cons c line ih =>
    rw [List.cons_append, splitlines_cons (h c List.mem_cons_self),
      ih fun x hx => h x (List.mem_cons_of_mem c hx)]

theorem splitlines_joinLines {lines : List Text} (h : ∀ line ∈ lines, IsLine line) :
    splitlines (joinLines lines) = lines := by
  induction lines with
  | nil => rfl
  | cons line lines ih =>
    cases lines with
    | nil => exact splitlines_line (h line List.mem_cons_self)
    | cons next lines =>
      rw [joinLines, splitlines_append (h line List.mem_cons_self).2,
        ih fun l hl => h l (List.mem_cons_of_mem line hl)]
      exact List.cons_ne_nil next lines

/-- Text that starts and ends with characters that are not whitespace. -/
def Trimmed (text : Text) : Prop :=
  (∃ c rest, text = c :: rest ∧ isSpace c = false) ∧ ∃ rest c, text = rest ++ [c] ∧ isSpace c = false

theorem IsWord.trimmed {w : Text} (h : IsWord w) : Trimmed w := by
  obtain ⟨hne, hspace⟩ := h
  refine ⟨?_, w.dropLast, w.getLast hne, (List.dropLast_append_getLast hne).symm, hspace _ (List.getLast_mem hne)⟩
  obtain ⟨c, rest, rfl⟩ := List.exists_cons_of_ne_nil hne
  exact ⟨c, rest, rfl, hspace c List.mem_cons_self⟩

theorem Trimmed.append {x y : Text} (hx : Trimmed x) (between : Text) (hy : Trimmed y) :
    Trimmed (x ++ between ++ y) := by
  obtain ⟨⟨c, rest, rfl, hc⟩, -⟩ := hx
  obtain ⟨-, init, d, rfl, hd⟩ := hy
  exact ⟨⟨c, _, rfl, hc⟩, _, d, (List.append_assoc _ _ _).symm, hd⟩

theorem strip_append {text : Text} (h : Trimmed text) {blanks : Text} (hb : ∀ c ∈ blanks, isSpace c = true) :
    strip (text ++ blanks) = text := by
  obtain ⟨⟨c, rest, hfirst, hc⟩, init, d, hlast, hd⟩ := h
  have hdrop : (text ++ blanks).dropWhile isSpace = text ++ blanks := by
    rw [hfirst, List.cons_append, List.dropWhile_cons_of_neg (by simp [hc])]
  rw [strip, hdrop]
  clear hdrop
  induction blanks using List.reverseRecOn with
  | nil => rw [List.append_nil, hlast, List.rdropWhile_concat_neg _ _ _ (by simp [hd])]
  | append_singleton blanks b ih =>
    rw [← List.append_assoc, List.rdropWhile_concat_pos _ _ _ (hb b (by simp))]
    exact ih fun x hx => hb x (List.mem_append_left _ hx)

theorem strip_trimmed {text : Text} (h : Trimmed text) : strip text = text := by
  have hstrip : strip (text ++ []) = text := strip_append h (by simp)
  rwa [List.append_nil] at hstrip

theorem IsWord.isLine {w : Text} (h : IsWord w) : IsLine w := by
  refine ⟨h.1, fun c hc => ?_⟩
  by_contra hbreak
  have hspace := isSpace_of_isLineBreak (Bool.not_eq_false _ ▸ hbreak)
  exact absurd (h.2 c hc) (by simp [hspace])

theorem Gap.isLine (gap : Gap) : IsLine gap.blanks :=
  ⟨gap.nonempty, fun c hc => by rcases gap.blank c hc with rfl | rfl <;> decide⟩

theorem IsLine.append {x y : Text} (hx : IsLine x) (hy : IsLine y) : IsLine (x ++ y) :=
  ⟨by simp [hx.1], fun c hc => (List.mem_append.mp hc).elim (hx.2 c) (hy.2 c)⟩

/-- What holds of the columns and is kept by joining two texts holds of the line. -/
theorem joinColumns_of {P : Text → Prop} {gap : Nat → Gap} {columns : List Text} (hne : columns ≠ [])
    (h : ∀ column ∈ columns, P column) (hjoin : ∀ x y (between : Gap), P x → P y → P (x ++ between.blanks ++ y)) :
    P (joinColumns gap columns) := by
  induction columns with
  | nil => exact absurd rfl hne
  | cons column columns ih =>
    cases columns with
    | nil => exact h column List.mem_cons_self
    | cons next columns =>
      have hrest := ih (List.cons_ne_nil next columns) fun c hc => h c (List.mem_cons_of_mem column hc)
      exact hjoin column _ _ (h column List.mem_cons_self) hrest

theorem joinColumns_isLine {gap : Nat → Gap} {columns : List Text} (hne : columns ≠ [])
    (h : ∀ column ∈ columns, IsLine column) : IsLine (joinColumns gap columns) :=
  joinColumns_of hne h fun _ _ between hx hy => (hx.append between.isLine).append hy

theorem joinColumns_trimmed {gap : Nat → Gap} {columns : List Text} (hne : columns ≠ [])
    (h : ∀ column ∈ columns, Trimmed column) : Trimmed (joinColumns gap columns) :=
  joinColumns_of hne h fun _ _ between hx hy => hx.append between.blanks hy

theorem joinLines_trimmed {lines : List Text} (hne : lines ≠ []) (h : ∀ line ∈ lines, Trimmed line) :
    Trimmed (joinLines lines) := by
  induction lines with
  | nil => exact absurd rfl hne
  | cons line lines ih =>
    cases lines with
    | nil => exact h line List.mem_cons_self
    | cons next lines =>
      have happend := (h line List.mem_cons_self).append ['\n']
        (ih (List.cons_ne_nil next lines) fun l hl => h l (List.mem_cons_of_mem line hl))
      rwa [List.append_assoc] at happend

/-! Decimal numbers. -/

private theorem digit?_eq_some {c : Char} (h : c.isDigit = true) : digit? c = some (c.toNat - '0'.toNat) := if_pos h

private theorem moreDigits_digits {text : Text} (h : ∀ c ∈ text, c.isDigit = true) (n : Nat) :
    moreDigits n text = some (Nat.ofDigitChars 10 text n) := by
  induction text generalizing n with
  | nil => rfl
  | cons c text ih =>
    have hc := h c List.mem_cons_self
    have hne : c ≠ '_' := by
      intro hu
      rw [hu] at hc
      exact absurd hc (by decide)
    rw [moreDigits, digit?_eq_some hc, Option.bind_some, ih (fun x hx => h x (List.mem_cons_of_mem c hx)),
      Nat.ofDigitChars_cons]
    exact fun _ _ hu => absurd hu hne

theorem natural_toDigits (n : Nat) : natural (Nat.toDigits 10 n) = some n := by
  obtain ⟨c, text, htext⟩ := List.exists_cons_of_ne_nil (Nat.toDigits_ne_nil (n := n) (b := 10))
  have hdigits : ∀ x ∈ c :: text, x.isDigit = true := fun x hx =>
    Nat.isDigit_of_mem_toDigits (by decide) (by decide) (htext ▸ hx)
  rw [htext, natural, digit?_eq_some (hdigits c List.mem_cons_self), Option.bind_some,
    moreDigits_digits fun x hx => hdigits x (List.mem_cons_of_mem c hx)]
  have hback := Nat.ofDigitChars_ten_toDigits (n := n)
  rw [htext, Nat.ofDigitChars_cons, Nat.mul_zero, Nat.zero_add] at hback
  rw [hback]

/-- Text with a character that stands in no number is no number. -/
theorem moreDigits_eq_none {c : Char} (hd : c.isDigit = false) (hu : c ≠ '_') {text : Text} (hc : c ∈ text)
    (n : Nat) : moreDigits n text = none := by
  have hdigit : digit? c = none := if_neg (by simp [hd])
  fun_induction moreDigits n text with
  | case1 => exact absurd hc List.not_mem_nil
  | case2 n d text ih =>
    rcases List.mem_cons.mp hc with rfl | hc
    · exact absurd rfl hu
    · rcases List.mem_cons.mp hc with rfl | hc
      · rw [hdigit, Option.bind_none]
      · exact Option.bind_eq_none_iff.mpr fun k _ => ih k hc
  | case3 n d text _ ih =>
    rcases List.mem_cons.mp hc with rfl | hc
    · rw [hdigit, Option.bind_none]
    · exact Option.bind_eq_none_iff.mpr fun k _ => ih k hc

private theorem natural_eq_none {c : Char} (hd : c.isDigit = false) (hu : c ≠ '_') {text : Text} (hc : c ∈ text) :
    natural text = none := by
  cases text with
  | nil => rfl
  | cons d text =>
    rw [natural]
    rcases List.mem_cons.mp hc with rfl | hc
    · rw [digit?, if_neg (by simp [hd]), Option.bind_none]
    · exact Option.bind_eq_none_iff.mpr fun k _ => moreDigits_eq_none hd hu hc k

private theorem isSpace_of_isDigit {c : Char} (h : c.isDigit = true) : isSpace c = false := by
  simp only [Char.isDigit, Bool.and_eq_true, decide_eq_true_eq] at h
  have hlow : 0x30 ≤ c.toNat := h.1
  have hhigh : c.toNat ≤ 0x39 := h.2
  rw [Bool.eq_false_iff]
  simp only [isSpace, ne_eq, Bool.or_eq_true, Bool.and_eq_true, decide_eq_true_eq, List.contains_eq_mem,
    List.mem_cons, List.not_mem_nil, or_false]
  omega

theorem toDigits_isWord (n : Nat) : IsWord (Nat.toDigits 10 n) :=
  ⟨Nat.toDigits_ne_nil, fun _ hc => isSpace_of_isDigit (Nat.isDigit_of_mem_toDigits (by decide) (by decide) hc)⟩

theorem decimal_isWord (n : Int) : IsWord (decimal n) := by
  cases n with
  | ofNat n => exact toDigits_isWord n
  | negSucc n =>
    refine ⟨List.cons_ne_nil _ _, fun c hc => ?_⟩
    rcases List.mem_cons.mp hc with rfl | hc
    · decide
    · exact (toDigits_isWord (n + 1)).2 c hc

/-- A printed number is read back. -/
theorem int_decimal (n : Int) : int (decimal n) = some n := by
  rw [int, strip_trimmed (decimal_isWord n).trimmed]
  cases n with
  | ofNat n =>
    have hnumber := natural_toDigits n
    have hdigits : ∀ c ∈ Nat.toDigits 10 n, c.isDigit = true := fun c hc =>
      Nat.isDigit_of_mem_toDigits (by decide) (by decide) hc
    rw [decimal]
    split
    · next digits hsign => exact absurd (hdigits '-' (by simp [hsign])) (by decide)
    · next digits hsign => exact absurd (hdigits '+' (by simp [hsign])) (by decide)
    · rw [hnumber]
      rfl
  | negSucc n =>
    simp only [decimal, natural_toDigits]
    rfl

theorem decimal_injective : Function.Injective decimal := fun m n h => by
  have hint := congrArg int h
  rwa [int_decimal, int_decimal, Option.some.injEq] at hint

/-- A number with more text behind it is no number. -/
theorem int_decimal_append (n : Int) {c : Char} (hd : c.isDigit = false) (hu : c ≠ '_') (hs : isSpace c = false) :
    int (decimal n ++ [c]) = none := by
  have hword : IsWord (decimal n ++ [c]) := (decimal_isWord n).append ⟨List.cons_ne_nil _ _, by simp [hs]⟩
  have hnone (text : Text) : natural (text ++ [c]) = none := natural_eq_none hd hu (by simp)
  obtain ⟨x, xs, hx⟩ := List.exists_cons_of_ne_nil (decimal_isWord n).1
  rw [int, strip_trimmed hword.trimmed, hx, List.cons_append]
  split
  · next digits hsign => rw [← (List.cons.inj hsign).2, hnone, Option.map_none]
  · next digits hsign => rw [← (List.cons.inj hsign).2, hnone, Option.map_none]
  · rw [← List.cons_append, hnone, Option.map_none]

end Shipstream.Python
