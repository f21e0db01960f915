import Shipstream.Kafka.Poll

/-! sim_log_start_offset.py: `consume_and_commit`, and the announcement of step 1 of `main`. -/
namespace Shipstream.Simulations.LogStartOffset
open Kafka

/-- A group's consumer with auto-commit off: the position after the last message handed out,
and the offset that the group has committed. -/
structure Client where
  position : Nat
  committed : Option Nat
  deriving DecidableEq, Repr

/-- A synchronous commit stores the position. -/
def Client.commit (c : Client) : Client := { c with committed := some c.position }

/-- The loop over the polls made before the deadline. A commit is made with the last of `count`
messages only. -/
def consume (count : Nat) : List Nat → Client → List Polled → List Nat × Client
  | offsets, c, [] => (offsets, c)
  | offsets, c, polled :: rest =>
    if offsets.length < count then
      match polled with
      | .timeout => consume count offsets c rest
      | .eof _ => (offsets, c)
      | .error _ => consume count offsets c rest
      | .message m =>
        let c := { c with position := m.offset + 1 }
        let offsets := offsets ++ [m.offset]
        consume count offsets (if offsets.length = count then c.commit else c) rest
    else (offsets, c)

/-- The offsets returned, and the group afterwards: closing commits nothing. -/
def consumeAndCommit (count : Nat) (c : Client) (trace : List Polled) : List Nat × Client :=
  consume count [] c trace

/-- The messages before the first end of the partition. -/
def readable : List Polled → List Message
  | [] => []
  | .eof _ :: _ => []
  | .message m :: rest => m :: readable rest
  | .timeout :: rest => readable rest
  | .error _ :: rest => readable rest

/-- The offset after the last one of a list. -/
def next (offsets : List Nat) : Option Nat := offsets.getLast?.map (· + 1)

/-- What the loop returns: the readable messages up to `count`. -/
theorem consume_offsets (count : Nat) (offsets : List Nat) (c : Client) (trace : List Polled) :
    (consume count offsets c trace).1 =
      offsets ++ ((readable trace).take (count - offsets.length)).map Message.offset := by
  induction trace generalizing offsets c with
  | nil => simp [consume, readable]
  | cons polled rest ih =>
    by_cases hlt : offsets.length < count
    · cases polled with
      | timeout => simp only [consume, hlt, if_true, ih, readable]
      | eof p => simp [consume, readable]
      | error text => simp only [consume, hlt, if_true, ih, readable]
      | message m =>
        obtain ⟨k, hk⟩ := Nat.exists_eq_add_of_lt hlt
        have htake : count - offsets.length = k + 1 := by omega
        have hrest : count - (offsets ++ [m.offset]).length = k := by
          rw [List.length_append, List.length_singleton]
          omega
        simp only [consume, hlt, if_true, ih, readable]
        rw [htake, hrest, List.take_succ_cons, List.map_cons, List.append_assoc]
        rfl
    · have htake : count - offsets.length = 0 := by omega
      simp [consume, hlt, htake]

/-- What the loop commits: the position after the last of `count` messages, if it gets there. -/
theorem consume_committed (count : Nat) (offsets : List Nat) (c : Client) (trace : List Polled) :
    (consume count offsets c trace).2.committed =
      if offsets.length < count ∧ count ≤ offsets.length + (readable trace).length then
        next (consume count offsets c trace).1
      else c.committed := by
  induction trace generalizing offsets c with
  | nil =>
    rw [if_neg (by simp only [readable, List.length_nil]; omega)]
    rfl
  | cons polled rest ih =>
    by_cases hlt : offsets.length < count
    · cases polled with
      | timeout => simp only [consume, hlt, if_true, ih, readable]
      | eof p =>
        rw [if_neg (by simp only [readable, List.length_nil]; omega)]
        simp only [consume, hlt, if_true]
      | error text => simp only [consume, hlt, if_true, ih, readable]
      | message m =>
        have hlength : (offsets ++ [m.offset]).length = offsets.length + 1 := by
          rw [List.length_append, List.length_singleton]
        simp only [consume, hlt, if_true, readable, List.length_cons, true_and]
        by_cases hcount : (offsets ++ [m.offset]).length = count
        · -- the commit, after which the loop condition is false
          have hdone : ∀ c, consume count (offsets ++ [m.offset]) c rest = (offsets ++ [m.offset], c) := by
            intro c
            cases rest with
            | nil => rfl
            | cons => simp [consume, hcount]
          rw [if_pos hcount, hdone, if_pos (by omega), next, List.getLast?_concat]
          rfl
        · rw [if_neg hcount, ih, hlength]
          refine if_congr ?_ rfl rfl
          omega
    · rw [if_neg fun h => hlt h.1]
      simp only [consume, hlt, if_false]

/-- What was consumed is what is committed: the group's offset is the one after the last
returned, and unchanged when nothing is returned. -/
structure CommitsConsumed (count : Nat) (c : Client) (trace : List Polled) : Prop where
  last : (consumeAndCommit count c trace).1 ≠ [] →
    (consumeAndCommit count c trace).2.committed = next (consumeAndCommit count c trace).1
  nothing : (consumeAndCommit count c trace).1 = [] → (consumeAndCommit count c trace).2.committed = c.committed

/-- Before the deadline and the first end of the partition the trace holds no message, or
`count` messages, unless the group had committed just the offset after the last one. -/
def AllOrNothing (count : Nat) (c : Client) (trace : List Polled) : Prop :=
  readable trace = [] ∨ count ≤ (readable trace).length ∨
    c.committed = next ((readable trace).map Message.offset)

theorem consumeAndCommit_offsets (count : Nat) (c : Client) (trace : List Polled) :
    (consumeAndCommit count c trace).1 = ((readable trace).take count).map Message.offset :=
  consume_offsets count [] c trace

theorem consumeAndCommit_committed (count : Nat) (c : Client) (trace : List Polled) :
    (consumeAndCommit count c trace).2.committed =
      if 0 < count ∧ count ≤ (readable trace).length then next (consumeAndCommit count c trace).1 else c.committed := by
  have h := consume_committed count [] c trace
  rwa [List.length_nil, Nat.zero_add] at h

/-- Nothing is returned exactly when nothing was read or asked for. -/
theorem consumeAndCommit_eq_nil {count : Nat} {c : Client} {trace : List Polled} :
    (consumeAndCommit count c trace).1 = [] ↔ count = 0 ∨ readable trace = [] := by
  rw [consumeAndCommit_offsets, List.map_eq_nil_iff, List.take_eq_nil_iff]

private theorem committed_of_eq_nil {count : Nat} {c : Client} {trace : List Polled}
    (hnil : (consumeAndCommit count c trace).1 = []) :
    (consumeAndCommit count c trace).2.committed = c.committed := by
  rw [consumeAndCommit_committed, if_neg]
  rintro ⟨hpos, hle⟩
  rcases consumeAndCommit_eq_nil.mp hnil with hzero | hread
  · omega
  · rw [hread, List.length_nil] at hle
    omega

/-- The last offset plus one is committed if and only if the loop ended at its count or read
nothing, or there was nothing left to commit. -/
theorem commitsConsumed_iff (count : Nat) (c : Client) (trace : List Polled) :
    CommitsConsumed count c trace ↔ AllOrNothing count c trace := by
  have hcommitted := consumeAndCommit_committed count c trace
  by_cases hnil : (consumeAndCommit count c trace).1 = []
  · refine ⟨fun _ => ?_, fun _ => ⟨fun h => absurd hnil h, committed_of_eq_nil⟩⟩
    rcases consumeAndCommit_eq_nil.mp hnil with hzero | hread
    · exact .inr (.inl (hzero ▸ Nat.zero_le _))
    · exact .inl hread
  · obtain ⟨hcount, hread⟩ := not_or.mp (consumeAndCommit_eq_nil.not.mp hnil)
    by_cases hle : count ≤ (readable trace).length
    · rw [if_pos ⟨Nat.pos_of_ne_zero hcount, hle⟩] at hcommitted
      exact ⟨fun _ => .inr (.inl hle), fun _ => ⟨fun _ => hcommitted, fun h => absurd h hnil⟩⟩
    · -- the loop was cut short, and what it read is not committed
      have hoffsets : (consumeAndCommit count c trace).1 = (readable trace).map Message.offset := by
        rw [consumeAndCommit_offsets, List.take_of_length_le (by omega)]
      rw [if_neg fun h => hle h.2] at hcommitted
      constructor
      · intro h
        have hlast := h.last hnil
        rw [hcommitted, hoffsets] at hlast
        exact .inr (.inr hlast)
      · intro h
        refine ⟨fun _ => ?_, fun h => absurd h hnil⟩
        rw [hcommitted, hoffsets]
        exact h.resolve_left hread |>.resolve_left hle

/-- The consumers of the three groups, GROUP-earliest, GROUP-latest and GROUP-error. -/
structure Groups where
  earliest : Client
  latest : Client
  error : Client
  deriving DecidableEq, Repr

/-- What each of the three consumers polls before its deadline. -/
structure Traces where
  earliest : List Polled
  latest : List Polled
  error : List Polled

inductive CommitLine where
  | committed (offset : Nat)
  | noMessages
  deriving DecidableEq, Repr

def CommitLine.text : CommitLine → String
  | .committed offset => "[commit]  Committed. Group offset is now " ++ toString offset ++ "."
  | .noMessages => "[commit]  Warning: no messages consumed — topic may be empty."

/-- Step 1 of `main` after producing: the line it appends, from what the first group returned,
and the three groups afterwards. -/
def step1 (groups : Groups) (traces : Traces) : CommitLine × Groups :=
  let earliest := consumeAndCommit 10 groups.earliest traces.earliest
  let latest := consumeAndCommit 10 groups.latest traces.latest
  let error := consumeAndCommit 10 groups.error traces.error
  (match next earliest.1 with
    | some offset => .committed offset
    | none => .noMessages, ⟨earliest.2, latest.2, error.2⟩)

/-- An announced offset is committed in the group that was read. -/
def AnnouncesCommitted (groups : Groups) (traces : Traces) : Prop :=
  ∀ offset, (step1 groups traces).1 = .committed offset →
    (step1 groups traces).2.earliest.committed = some offset

private theorem announcesCommitted_iff (groups : Groups) (traces : Traces) :
    AnnouncesCommitted groups traces ↔ AllOrNothing 10 groups.earliest traces.earliest := by
  rw [← commitsConsumed_iff]
  constructor
  · intro hannounces
    refine ⟨fun hne => ?_, committed_of_eq_nil⟩
    have hnext : next (consumeAndCommit 10 groups.earliest traces.earliest).1 =
        some ((consumeAndCommit 10 groups.earliest traces.earliest).1.getLast hne + 1) := by
      rw [next, List.getLast?_eq_some_getLast hne, Option.map_some]
    rw [hnext]
    apply hannounces _
    simp only [step1, hnext]
  · intro hcommits offset hoffset
    cases hnext : next (consumeAndCommit 10 groups.earliest traces.earliest).1 with
    | none => simp only [step1, hnext, reduceCtorEq] at hoffset
    | some last =>
      simp only [step1, hnext, CommitLine.committed.injEq] at hoffset
      have hne : (consumeAndCommit 10 groups.earliest traces.earliest).1 ≠ [] := by
        intro hnil
        rw [hnil] at hnext
        cases hnext
      rw [← hoffset, ← hnext]
      exact hcommits.last hne

/-- In every run of `consume_and_commit` what was consumed is what is committed, and in every run
of step 1 the announced offset is, if and only if the trace of the group is cut nowhere
between its first message and its count. -/
theorem consumed_committed_iff (count : Nat) (c : Client) (trace : List Polled) (groups : Groups)
    (traces : Traces) :
    (CommitsConsumed count c trace ↔ AllOrNothing count c trace) ∧
      (AnnouncesCommitted groups traces ↔ AllOrNothing 10 groups.earliest traces.earliest) :=
  ⟨commitsConsumed_iff count c trace, announcesCommitted_iff groups traces⟩

/-- Two messages of ten arrive before the deadline: offset 2 is announced and nothing committed. -/
theorem consumed_not_committed : ¬ ((∀ (count : Nat) (c : Client) (trace : List Polled), 1 ≤ count →
      CommitsConsumed count c trace) ∧
    ∀ (groups : Groups) (traces : Traces), AnnouncesCommitted groups traces) := by
  rintro ⟨-, hannounces⟩
  have h := hannounces ⟨⟨0, none⟩, ⟨0, none⟩, ⟨0, none⟩⟩
    ⟨[.timeout, .message ⟨0, 0, some []⟩, .message ⟨0, 1, some []⟩, .timeout], [], []⟩ 2 (by decide)
  exact absurd h (by decide)

end Shipstream.Simulations.LogStartOffset
