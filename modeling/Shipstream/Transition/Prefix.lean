import Mathlib.Tactic

/-! Splits and prefixes of a finite history. -/
namespace Shipstream.Transition
variable {τ : Type*}

/-- A statement about every split of a list at an element, by its head. -/
theorem forall_split_cons {Q : List τ → τ → Prop} {x : τ} {rest : List τ} :
    (∀ pre y post, x :: rest = pre ++ y :: post → Q pre y) ↔
      Q [] x ∧ ∀ pre y post, rest = pre ++ y :: post → Q (x :: pre) y := by
  constructor
  · intro h
    exact ⟨h [] x rest rfl, fun pre y post hrest => h (x :: pre) y post (by rw [hrest, List.cons_append])⟩
  · rintro ⟨hx, hrest⟩ pre y post hsplit
    cases pre with
    | nil =>
      simp only [List.nil_append, List.cons.injEq] at hsplit
      exact hsplit.1 ▸ hx
    | cons z pre =>
      simp only [List.cons_append, List.cons.injEq] at hsplit
      exact hsplit.1 ▸ hrest pre y post hsplit.2

/-- Splitting off a part of a list whose remainder leaves out the head. -/
theorem exists_part_cons {X : List τ → Prop} {x : τ} {rest unread : List τ} (hu : unread <:+ rest) :
    (∃ part, x :: rest = part ++ unread ∧ X part) ↔ ∃ part, rest = part ++ unread ∧ X (x :: part) := by
  constructor
  · rintro ⟨part, hpart, hx⟩
    cases part with
    | nil =>
      have hle := hu.length_le
      rw [← List.nil_append unread, ← hpart, List.length_cons] at hle
      omega
    | cons y part =>
      simp only [List.cons_append, List.cons.injEq] at hpart
      exact ⟨part, hpart.2, hpart.1 ▸ hx⟩
  · rintro ⟨part, hpart, hx⟩
    exact ⟨x :: part, by rw [List.cons_append, ← hpart], hx⟩

/-- A prefix followed by the next element of the list is a prefix. -/
theorem prefix_snoc {xs ys : List τ} {y : τ} (h : xs <+: ys) (hy : ys[xs.length]? = some y) :
    xs ++ [y] <+: ys := by
  obtain ⟨rest, rfl⟩ := h
  rw [List.getElem?_append_right (le_refl _), Nat.sub_self] at hy
  obtain ⟨z, zs, rfl⟩ := List.exists_cons_of_ne_nil (l := rest) (by rintro rfl; cases hy)
  cases hy
  exact ⟨zs, by simp⟩

variable {P : List τ → Prop} {history h : List τ}

/-- A history that has a property, none of its proper prefixes having it. -/
def First (P : List τ → Prop) (h : List τ) : Prop := P h ∧ ∀ xs, xs <+: h → P xs → xs = h

/-- A history that has a property has a first prefix with it. Induction on the length. -/
theorem exists_first (hP : P history) : ∃ h, h <+: history ∧ First P h := by
  induction hn : history.length using Nat.strong_induction_on generalizing history with
  | _ n ih =>
    by_cases hfirst : First P history
    · exact ⟨history, List.prefix_rfl, hfirst⟩
    · obtain ⟨xs, hxs, hPxs, hne⟩ : ∃ xs, xs <+: history ∧ P xs ∧ xs ≠ history := by
        by_contra hnone
        push Not at hnone
        exact hfirst ⟨hP, hnone⟩
      have hlt : xs.length < n := by
        rw [← hn]
        exact lt_of_le_of_ne hxs.length_le fun heq => hne (hxs.eq_of_length heq)
      obtain ⟨h, hh, hf⟩ := ih xs.length hlt hPxs rfl
      exact ⟨h, hh.trans hxs, hf⟩

end Shipstream.Transition
