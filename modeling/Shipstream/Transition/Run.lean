import Mathlib.Tactic

/-! Finite runs of a labelled step relation, and what holds along them. -/
namespace Shipstream.Transition
variable {σ α : Type*}

/-- A run takes its labels in order. -/
inductive Run (Step : σ → α → σ → Prop) : σ → List α → σ → Prop where
  | nil (s : σ) : Run Step s [] s
  | cons {s t u : σ} {a : α} {as : List α} (hs : Step s a t) (hr : Run Step t as u) : Run Step s (a :: as) u

/-- The steps of a relation that meet a condition on their label and the state before them. -/
def Guarded (Step : σ → α → σ → Prop) (ok : σ → α → Prop) : σ → α → σ → Prop :=
  fun s a t => ok s a ∧ Step s a t

variable {Step Other : σ → α → σ → Prop} {s t u : σ} {a : α} {as bs : List α}

/-- What every step preserves every run preserves. -/
theorem Run.invariant (I : σ → Prop) (hstep : ∀ s a t, Step s a t → I s → I t) (h : Run Step s as t)
    (hi : I s) : I t := by
  induction h with
  | nil => exact hi
  | cons hs _ ih => exact ih (hstep _ _ _ hs hi)

/-- A run that does not keep a condition has a step that breaks it. -/
theorem Run.exists_break (I : σ → Prop) (h : Run Step s as t) (hi : I s) (hn : ¬ I t) :
    ∃ before a after u v, as = before ++ a :: after ∧ Run Step s before u ∧ Step u a v ∧ Run Step v after t ∧
      I u ∧ ¬ I v := by
  induction h with
  | nil => exact absurd hi hn
  | @cons s t w a as hs hr ih =>
    by_cases ht : I t
    · obtain ⟨before, b, after, u, v, rfl, hbefore, hb, hafter, hu, hv⟩ := ih ht hn
      exact ⟨a :: before, b, after, u, v, rfl, .cons hs hbefore, hb, hafter, hu, hv⟩
    · exact ⟨[], a, as, s, t, rfl, .nil s, hs, hr, hi, ht⟩

theorem Run.append (h : Run Step s as t) (h' : Run Step t bs u) : Run Step s (as ++ bs) u := by
  induction h with
  | nil => exact h'
  | cons hs _ ih => exact .cons hs (ih h')

theorem Run.mono (hsub : ∀ s a t, Step s a t → Other s a t) (h : Run Step s as t) : Run Other s as t := by
  induction h with
  | nil => exact .nil _
  | cons hs _ ih => exact .cons (hsub _ _ _ hs) ih

theorem Run.guarded_cons {ok : σ → α → Prop} (hs : Step s a t) (hok : ok s a)
    (hr : Run (Guarded Step ok) t as u) : Run (Guarded Step ok) s (a :: as) u := .cons ⟨hok, hs⟩ hr

/-- A run meets a condition that an invariant of its steps implies. -/
theorem Run.guarded {ok : σ → α → Prop} (I : σ → Prop) (hstep : ∀ s a t, Step s a t → I s → I t)
    (hok : ∀ s a, I s → ok s a) (h : Run Step s as t) (hi : I s) : Run (Guarded Step ok) s as t := by
  induction h with
  | nil => exact .nil _
  | cons hs _ ih => exact .cons ⟨hok _ _ hi, hs⟩ (ih (hstep _ _ _ hs hi))

/-- What every step preserves along with what its label adds to a history. -/
theorem Run.accumulate {β : Type*} (out : α → List β) (I : List β → σ → Prop)
    (hstep : ∀ history s a t, Step s a t → I history s → I (history ++ out a) t) (h : Run Step s as t)
    (history : List β) (hi : I history s) : I (history ++ as.flatMap out) t := by
  induction h generalizing history with
  | nil => rwa [List.flatMap_nil, List.append_nil]
  | cons hs _ ih =>
    rw [List.flatMap_cons, ← List.append_assoc]
    exact ih _ (hstep _ _ _ _ hs hi)

/-- What the labels of a run cost in all, where the cost of a label depends on what is known from
the labels before it. -/
def totalCost {κ : Type*} (next : κ → α → κ) (cost : κ → α → Nat) : κ → List α → Nat
  | _, [] => 0
  | known, a :: as => cost known a + totalCost next cost (next known a) as

/-- A measure that no step raises by more than its label costs is raised by no run by more than its
labels cost in all. -/
theorem Run.measure_le {κ : Type*} {next : κ → α → κ} {cost : κ → α → Nat} (I : σ → Prop) (known : σ → κ)
    (measure : σ → Nat) (hkeep : ∀ s a t, Step s a t → I s → I t)
    (hknown : ∀ s a t, Step s a t → known t = next (known s) a)
    (hcost : ∀ s a t, Step s a t → I s → measure t ≤ measure s + cost (known s) a) (h : Run Step s as t) (hi : I s) :
    measure t ≤ measure s + totalCost next cost (known s) as := by
  induction h with
  | nil => exact Nat.le_refl _
  | @cons s t u a as hs _ ih =>
    calc measure u
      _ ≤ measure t + totalCost next cost (known t) as := ih (hkeep _ _ _ hs hi)
      _ ≤ measure s + cost (known s) a + totalCost next cost (known t) as :=
        Nat.add_le_add_right (hcost _ _ _ hs hi) _
      _ = measure s + totalCost next cost (known s) (a :: as) := by
        rw [hknown _ _ _ hs, totalCost, Nat.add_assoc]

/-- A run is followed by a run of another system that answers each of its steps with some steps,
keeping a relation between the states. -/
theorem Run.simulate {τ β : Type*} {Other : τ → β → τ → Prop} (R : σ → τ → Prop)
    (hstep : ∀ s a t x, Step s a t → R s x → ∃ bs y, Run Other x bs y ∧ R t y) (h : Run Step s as t) {x : τ}
    (hx : R s x) : ∃ bs y, Run Other x bs y ∧ R t y := by
  induction h generalizing x with
  | nil => exact ⟨[], x, .nil x, hx⟩
  | cons hs _ ih =>
    obtain ⟨bs, y, hrun, hy⟩ := hstep _ _ _ _ hs hx
    obtain ⟨cs, z, hrest, hz⟩ := ih hy
    exact ⟨bs ++ cs, z, hrun.append hrest, hz⟩

/-- The part of a system that each step leaves alone or moves by a step of its own makes a run of its
own. -/
theorem Run.project {τ β : Type*} {Other : τ → β → τ → Prop} (f : σ → τ)
    (hstep : ∀ s a t, Step s a t → f t = f s ∨ ∃ b, Other (f s) b (f t)) (h : Run Step s as t) :
    ∃ bs, Run Other (f s) bs (f t) := by
  induction h with
  | nil s => exact ⟨[], .nil _⟩
  | cons hs _ ih =>
    obtain ⟨bs, hrun⟩ := ih
    rcases hstep _ _ _ hs with hsame | ⟨b, hb⟩
    · exact ⟨bs, hsame ▸ hrun⟩
    · exact ⟨b :: bs, .cons hb hrun⟩

/-- Runs that bring about one of finitely many conditions each, sparing the others, bring about all
of them. Induction on how many. -/
theorem exists_run_forall_lt (I : σ → Prop) (Q : Nat → σ → Prop) {n : Nat}
    (hstep : ∀ s p, I s → p < n → ∃ as t, Run Step s as t ∧ I t ∧ Q p t ∧ ∀ q, q ≠ p → Q q s → Q q t) {s : σ}
    (hs : I s) : ∃ as t, Run Step s as t ∧ I t ∧ ∀ q < n, Q q t := by
  have hfirst : ∀ k ≤ n, ∃ as t, Run Step s as t ∧ I t ∧ ∀ q < k, Q q t := by
    intro k
    induction k with
    | zero => exact fun _ => ⟨[], s, .nil s, hs, fun q hq => absurd hq (Nat.not_lt_zero q)⟩
    | succ k ih =>
      intro hk
      obtain ⟨as, t, hrun, ht, hbelow⟩ := ih (Nat.le_of_succ_le hk)
      obtain ⟨bs, u, hrun', hu, hq, hkept⟩ := hstep t k ht hk
      refine ⟨as ++ bs, u, hrun.append hrun', hu, fun q hlt => ?_⟩
      rcases Nat.lt_succ_iff_lt_or_eq.mp hlt with hlt | rfl
      · exact hkept q (Nat.ne_of_lt hlt) (hbelow q hlt)
      · exact hq
  exact hfirst n (Nat.le_refl n)

/-- Dropping the condition of a guarded run. -/
theorem Run.unguarded {ok : σ → α → Prop} (h : Run (Guarded Step ok) s as t) : Run Step s as t :=
  h.mono fun _ _ _ hs => hs.2

end Shipstream.Transition
