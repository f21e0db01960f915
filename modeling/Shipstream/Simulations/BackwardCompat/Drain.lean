import Shipstream.Kafka.Poll
import Shipstream.Transition.Prefix

/-! `drain` of sim_backward_compat.py over an arbitrary trace of poll results. -/
namespace Shipstream.Simulations.BackwardCompat
open Kafka Transition

/-- One iteration's view: what `poll` returned and what `assignment()` is afterwards. -/
structure PollEvent where
  polled : Polled
  assignment : List Nat
  deriving DecidableEq, Repr

structure DrainState (α : Type) where
  results : List (Message × Option α)
  eofPartitions : Finset Nat

inductive DrainOutcome (α : Type) where
  | polling (st : DrainState α)
  | returned (results : List (Message × Option α))
  | raised (error : String)

variable {α : Type}

/-- One iteration of the loop. The exit test runs on EOF events only, and the
deserializer is not guarded. -/
def drainStep (deserializer : Deserializer α) (st : DrainState α) (e : PollEvent) : DrainOutcome α :=
  match e.polled with
  | .timeout => .polling st
  | .eof p =>
    let eofPartitions := insert p st.eofPartitions
    if e.assignment ≠ [] ∧ e.assignment.toFinset ⊆ eofPartitions then .returned st.results
    else .polling { st with eofPartitions := eofPartitions }
  | .error _ => .polling st
  | .message m =>
    match deserializer m.value with
    | .error text => .raised text
    | .ok order => .polling { st with results := st.results ++ [(m, order)] }

/-- The loop over a trace, with the events it leaves unread. -/
def drainFrom (deserializer : Deserializer α) : DrainState α → List PollEvent →
    DrainOutcome α × List PollEvent
  | st, [] => (.polling st, [])
  | st, e :: rest =>
    match drainStep deserializer st e with
    | .polling st' => drainFrom deserializer st' rest
    | .returned results => (.returned results, rest)
    | .raised error => (.raised error, rest)

def drain (deserializer : Deserializer α) (trace : List PollEvent) : DrainOutcome α × List PollEvent :=
  drainFrom deserializer ⟨[], ∅⟩ trace

/-- The poll results of a trace. -/
def polls (trace : List PollEvent) : List Polled := trace.map PollEvent.polled

/-- The event that satisfies the exit test when the given partitions have already ended. -/
def Stops (ended : Finset Nat) (e : PollEvent) : Prop :=
  ∃ p, e.polled = .eof p ∧ e.assignment ≠ [] ∧ e.assignment.toFinset ⊆ insert p ended

/-- Every message of the trace decodes to an order. -/
def Decodes (deserializer : Deserializer α) (polls : List Polled) : Prop :=
  ∀ m ∈ messages polls, ∃ order, deserializer m.value = .ok order

/-- What the loop appends for a message that decodes. -/
def decoded (deserializer : Deserializer α) (m : Message) : Message × Option α :=
  (m, match deserializer m.value with
    | .ok order => order
    | .error _ => none)

/-- One iteration over a decodable event: it returns exactly on an event that
stops, and otherwise records the event. -/
theorem drainStep_spec (deserializer : Deserializer α) (st : DrainState α) (e : PollEvent)
    (hd : Decodes deserializer [e.polled]) :
    (Stops st.eofPartitions e ∧ drainStep deserializer st e = .returned st.results) ∨
      (¬ Stops st.eofPartitions e ∧ drainStep deserializer st e = .polling
        ⟨st.results ++ (messages [e.polled]).map (decoded deserializer),
          st.eofPartitions ∪ eofs [e.polled]⟩) := by
  obtain ⟨polled, assignment⟩ := e
  cases polled with
  | timeout | error _ =>
    right
    simp [Stops, drainStep, messages, eofs, Polled.message?, List.filterMap_cons]
  | eof p =>
    by_cases h : assignment ≠ [] ∧ assignment.toFinset ⊆ insert p st.eofPartitions
    · exact .inl ⟨⟨p, rfl, h⟩, if_pos h⟩
    · refine .inr ⟨?_, ?_⟩
      · rintro ⟨q, hq, hstop⟩
        cases hq
        exact h hstop
      · apply (if_neg h).trans
        simp [messages, eofs, Polled.message?, List.filterMap_cons]
  | message m =>
    right
    obtain ⟨order, ho⟩ := hd m (by simp [messages, Polled.message?])
    simp [Stops, drainStep, messages, eofs, Polled.message?, decoded, ho]

private theorem eofs_polls_cons (ended : Finset Nat) (e : PollEvent) (rest : List PollEvent) :
    ended ∪ eofs (polls (e :: rest)) = ended ∪ eofs [e.polled] ∪ eofs (polls rest) := by
  ext p
  simp [polls]

private theorem messages_polls_cons (e : PollEvent) (rest : List PollEvent) :
    messages (polls (e :: rest)) = messages [e.polled] ++ messages (polls rest) := by
  rw [← messages_append]
  rfl

/-- No event of a prefix satisfies the exit test. -/
def RunsOn (ended : Finset Nat) (pre : List PollEvent) : Prop :=
  ∀ xs e ys, pre = xs ++ e :: ys → ¬ Stops (ended ∪ eofs (polls xs)) e

theorem runsOn_cons {ended : Finset Nat} {e : PollEvent} {pre : List PollEvent} :
    RunsOn ended (e :: pre) ↔ ¬ Stops ended e ∧ RunsOn (ended ∪ eofs [e.polled]) pre := by
  rw [RunsOn, forall_split_cons (Q := fun xs f => ¬ Stops (ended ∪ eofs (polls xs)) f)]
  simp only [eofs_polls_cons]
  refine and_congr ?_ Iff.rfl
  simp [eofs, polls]

/-- An iteration that cannot decode its message raises. -/
theorem drainStep_raised (deserializer : Deserializer α) (st : DrainState α) (e : PollEvent)
    (hd : ¬ Decodes deserializer [e.polled]) : ∃ text, drainStep deserializer st e = .raised text := by
  obtain ⟨polled, assignment⟩ := e
  cases polled with
  | message m =>
    cases ho : deserializer m.value with
    | error text => exact ⟨text, by simp only [drainStep, ho]⟩
    | ok order =>
      refine absurd (fun m' hm' => ?_) hd
      have hmm : m' = m := by simpa [messages, Polled.message?] using hm'
      exact ⟨order, hmm ▸ ho⟩
  | _ => exact absurd (fun m' hm' => by simp [messages, Polled.message?, List.filterMap_cons] at hm') hd

theorem map_fst_decoded (deserializer : Deserializer α) (ms : List Message) :
    (ms.map (decoded deserializer)).map Prod.fst = ms := by
  rw [List.map_map]
  exact List.map_id ms

private theorem decodes_cons {deserializer : Deserializer α} {e : PollEvent} {pre : List PollEvent} :
    Decodes deserializer (polls (e :: pre)) ↔
      Decodes deserializer [e.polled] ∧ Decodes deserializer (polls pre) := by
  simp only [Decodes, messages_polls_cons, List.mem_append, or_imp, forall_and]

/-- An event that stops the loop carries no message. -/
theorem Stops.decodes {ended : Finset Nat} {e : PollEvent} (h : Stops ended e)
    (deserializer : Deserializer α) : Decodes deserializer [e.polled] := by
  obtain ⟨p, hp, -⟩ := h
  intro m hm
  rw [hp] at hm
  cases hm

/-- The loop returns at the first event that stops it, with the messages before that
event, provided they decode. Induction over the trace. -/
theorem drainFrom_returned_exact (deserializer : Deserializer α) {st : DrainState α}
    {trace rest : List PollEvent} {results : List (Message × Option α)} :
    drainFrom deserializer st trace = (.returned results, rest) ↔
      ∃ pre e, trace = pre ++ e :: rest ∧ Decodes deserializer (polls pre) ∧ RunsOn st.eofPartitions pre ∧
        Stops (st.eofPartitions ∪ eofs (polls pre)) e ∧
        results = st.results ++ (messages (polls pre)).map (decoded deserializer) := by
  induction trace generalizing st with
  | nil => simp [drainFrom]
  | cons e trace ih =>
    by_cases hd : Decodes deserializer [e.polled]
    · rcases drainStep_spec deserializer st e hd with ⟨hs, hstep⟩ | ⟨hs, hstep⟩
      · simp only [drainFrom, hstep, Prod.mk.injEq, DrainOutcome.returned.injEq]
        constructor
        · rintro ⟨rfl, rfl⟩
          refine ⟨[], e, rfl, ?_, ?_, by simpa [eofs, polls] using hs, by simp [messages, polls]⟩
          · intro m hm
            cases hm
          · intro xs f ys h
            simp at h
        · rintro ⟨pre, f, htrace, -, hrun, -, hres⟩
          cases pre with
          | nil =>
            simp only [List.nil_append, List.cons.injEq] at htrace
            exact ⟨by simpa [messages, polls] using hres.symm, htrace.2⟩
          | cons x pre =>
            simp only [List.cons_append, List.cons.injEq] at htrace
            rw [← htrace.1] at hrun
            exact absurd hs (runsOn_cons.mp hrun).1
      · simp only [drainFrom, hstep]
        rw [ih]
        constructor
        · rintro ⟨pre, f, rfl, hdec, hrun, hstop, rfl⟩
          refine ⟨e :: pre, f, rfl, decodes_cons.mpr ⟨hd, hdec⟩, runsOn_cons.mpr ⟨hs, hrun⟩,
            eofs_polls_cons _ e pre ▸ hstop, ?_⟩
          rw [messages_polls_cons, List.map_append, List.append_assoc]
        · rintro ⟨pre, f, htrace, hdec, hrun, hstop, hres⟩
          cases pre with
          | nil =>
            simp only [List.nil_append, List.cons.injEq] at htrace
            exact absurd (by simpa [eofs, polls, ← htrace.1] using hstop) hs
          | cons x pre =>
            simp only [List.cons_append, List.cons.injEq] at htrace
            obtain ⟨rfl, rfl⟩ := htrace
            refine ⟨pre, f, rfl, (decodes_cons.mp hdec).2, (runsOn_cons.mp hrun).2,
              eofs_polls_cons _ e pre ▸ hstop, ?_⟩
            rw [hres, messages_polls_cons, List.map_append, List.append_assoc]
    · obtain ⟨text, hstep⟩ := drainStep_raised deserializer st e hd
      simp only [drainFrom, hstep, Prod.mk.injEq, reduceCtorEq, false_and, false_iff]
      rintro ⟨pre, f, htrace, hdec, -, hstop, -⟩
      cases pre with
      | nil =>
        simp only [List.nil_append, List.cons.injEq] at htrace
        exact hd (htrace.1 ▸ hstop.decodes deserializer)
      | cons x pre =>
        simp only [List.cons_append, List.cons.injEq] at htrace
        rw [← htrace.1] at hdec
        exact hd (decodes_cons.mp hdec).1

/-- Whatever the messages hold, a loop that returned had read the messages before the
event that stopped it. -/
theorem drainFrom_returned (deserializer : Deserializer α) {st : DrainState α} {trace rest : List PollEvent}
    {results : List (Message × Option α)} (h : drainFrom deserializer st trace = (.returned results, rest)) :
    ∃ pre e, trace = pre ++ e :: rest ∧ Stops (st.eofPartitions ∪ eofs (polls pre)) e ∧
      results.map Prod.fst = st.results.map Prod.fst ++ messages (polls pre) := by
  obtain ⟨pre, e, htrace, -, -, hstop, rfl⟩ := (drainFrom_returned_exact deserializer).mp h
  refine ⟨pre, e, htrace, hstop, ?_⟩
  rw [List.map_append, map_fst_decoded]

/-- Over a decodable trace the condition on the messages read holds by itself. -/
theorem drainFrom_returned_iff (deserializer : Deserializer α) {st : DrainState α}
    {trace rest : List PollEvent} (hd : Decodes deserializer (polls trace))
    {results : List (Message × Option α)} :
    drainFrom deserializer st trace = (.returned results, rest) ↔
      ∃ pre e, trace = pre ++ e :: rest ∧ RunsOn st.eofPartitions pre ∧
        Stops (st.eofPartitions ∪ eofs (polls pre)) e ∧
        results = st.results ++ (messages (polls pre)).map (decoded deserializer) := by
  rw [drainFrom_returned_exact]
  constructor
  · rintro ⟨pre, e, htrace, -, h⟩
    exact ⟨pre, e, htrace, h⟩
  · rintro ⟨pre, e, htrace, h⟩
    refine ⟨pre, e, htrace, fun m hm => hd m ?_, h⟩
    rw [htrace, polls, List.map_append, messages_append]
    exact List.mem_append_left _ hm

/-- A trace with an event that stops the loop has a first one. -/
theorem exists_first_stop (ended : Finset Nat) (trace : List PollEvent)
    (h : ¬ RunsOn ended trace) :
    ∃ pre e rest, trace = pre ++ e :: rest ∧ RunsOn ended pre ∧ Stops (ended ∪ eofs (polls pre)) e := by
  induction trace generalizing ended with
  | nil =>
    refine absurd (fun xs e ys hx => ?_) h
    simp at hx
  | cons e trace ih =>
    by_cases hs : Stops ended e
    · refine ⟨[], e, trace, rfl, fun xs f ys hx => by simp at hx, by simpa [eofs, polls] using hs⟩
    · obtain ⟨pre, f, rest, rfl, hrun, hstop⟩ := ih (ended ∪ eofs [e.polled])
        (fun hrun => h (runsOn_cons.mpr ⟨hs, hrun⟩))
      refine ⟨e :: pre, f, rest, rfl, runsOn_cons.mpr ⟨hs, hrun⟩, ?_⟩
      exact eofs_polls_cons ended e pre ▸ hstop

end Shipstream.Simulations.BackwardCompat
