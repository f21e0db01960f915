import Shipstream.Simulations.BackwardCompat.Drain

/-! `drain` while its group rebalances: partitions are revoked and given back between polls,
and `eof_partitions` keeps what was reported before. -/
namespace Shipstream.Simulations.BackwardCompat
open Kafka Transition

/-- A partition given to the consumer, or taken from it. -/
inductive Change where
  | assigned (p : Nat)
  | revoked (p : Nat)
  deriving DecidableEq, Repr

/-- The assignment after a change. -/
def Change.apply (assignment : List Nat) : Change → List Nat
  | .assigned p => assignment.filter (· ≠ p) ++ [p]
  | .revoked p => assignment.filter (· ≠ p)

/-- The changes since the last poll, and what this poll returned. -/
structure Turn where
  changes : List Change
  polled : Polled
  deriving DecidableEq, Repr

/-- What `assignment()` returns after a history; it is empty when the consumer subscribes. -/
def assignmentAfter (history : List Turn) : List Nat := (history.flatMap Turn.changes).foldl Change.apply []

/-- The trace of a history, continued from an assignment. -/
def traceFrom : List Nat → List Turn → List PollEvent
  | _, [] => []
  | assignment, t :: rest =>
    let assignment := t.changes.foldl Change.apply assignment
    ⟨t.polled, assignment⟩ :: traceFrom assignment rest

/-- What `drain` sees of a history. -/
def traceOf (history : List Turn) : List PollEvent := traceFrom [] history

/-- The partition has reported its end since it was last assigned. -/
def ReportedSinceAssigned (history : List Turn) (p : Nat) : Prop :=
  ∃ before t after, history = before ++ t :: after ∧ t.polled = .eof p ∧ ∀ u ∈ after, .assigned p ∉ u.changes

/-- The assignment is non-empty and every assigned partition is read to its end. -/
def ReadToEnd (history : List Turn) : Prop :=
  assignmentAfter history ≠ [] ∧ ∀ p ∈ assignmentAfter history, ReportedSinceAssigned history p

/-- The last poll of the history reported the end of a partition. -/
def EndsAtEof (history : List Turn) : Prop := ∃ p, history.getLast?.map Turn.polled = some (.eof p)

/-- The assignment is non-empty and every assigned partition has reported its end at some
time, perhaps before it was taken away and given back. -/
def EverReported (history : List Turn) : Prop :=
  assignmentAfter history ≠ [] ∧ ∀ p ∈ assignmentAfter history, ∃ t ∈ history, t.polled = .eof p

/-- The messages polled before the last poll decode. -/
def DecodesBefore {α : Type} (deserializer : Deserializer α) (history : List Turn) : Prop :=
  Decodes deserializer (history.dropLast.map Turn.polled)

private theorem ReadToEnd.everReported {history : List Turn} (h : ReadToEnd history) : EverReported history := by
  refine ⟨h.1, fun p hp => ?_⟩
  obtain ⟨before, t, after, rfl, ht, -⟩ := h.2 p hp
  exact ⟨t, by simp, ht⟩

/-! The events `drain` sees. -/

section Trace
variable (assignment : List Nat) (pre post history : List Turn) (t : Turn)

private theorem traceFrom_append : traceFrom assignment (pre ++ post) =
    traceFrom assignment pre ++ traceFrom ((pre.flatMap Turn.changes).foldl Change.apply assignment) post := by
  induction pre generalizing assignment with
  | nil => rfl
  | cons u pre ih =>
    simp only [List.cons_append, traceFrom, ih, List.flatMap_cons, List.foldl_append]

@[simp] theorem traceFrom_length : (traceFrom assignment history).length = history.length := by
  induction history generalizing assignment with
  | nil => rfl
  | cons u history ih => simp only [traceFrom, List.length_cons, ih]

private theorem polls_traceFrom : polls (traceFrom assignment history) = history.map Turn.polled := by
  induction history generalizing assignment with
  | nil => rfl
  | cons u history ih => simp only [traceFrom, polls, List.map_cons] at ih ⊢; rw [ih]

private theorem traceOf_snoc : traceOf (pre ++ [t]) = traceOf pre ++ [⟨t.polled, assignmentAfter (pre ++ [t])⟩] := by
  rw [traceOf, traceFrom_append]
  simp [traceFrom, traceOf, assignmentAfter, List.foldl_append]

@[simp] theorem traceOf_length : (traceOf history).length = history.length := traceFrom_length [] history

private theorem polls_traceOf : polls (traceOf history) = history.map Turn.polled := polls_traceFrom [] history

private theorem traceOf_take (h : pre <+: history) : (traceOf history).take pre.length = traceOf pre := by
  obtain ⟨post, rfl⟩ := h
  rw [traceOf, traceFrom_append, List.take_left' (traceFrom_length [] pre)]
  rfl

/-- The exit test at the last poll of a history. -/
theorem stops_iff : Stops (eofs (polls (traceOf pre))) ⟨t.polled, assignmentAfter (pre ++ [t])⟩ ↔
    EndsAtEof (pre ++ [t]) ∧ EverReported (pre ++ [t]) := by
  simp only [Stops, EndsAtEof, EverReported, polls_traceOf, List.getLast?_append, List.getLast?_singleton,
    Option.some_or, Option.map_some, Option.some.injEq, ← exists_and_right]
  refine exists_congr fun p => ⟨?_, ?_⟩
  · rintro ⟨ht, hne, hsub⟩
    refine ⟨ht, hne, fun q hq => ?_⟩
    rcases Finset.mem_insert.mp (hsub (List.mem_toFinset.mpr hq)) with rfl | hmem
    · exact ⟨t, by simp, ht⟩
    · obtain ⟨u, hu, he⟩ := List.mem_map.mp (mem_eofs.mp hmem)
      exact ⟨u, List.mem_append_left _ hu, he⟩
  · rintro ⟨ht, hne, hall⟩
    refine ⟨ht, hne, fun q hq => ?_⟩
    obtain ⟨u, hu, he⟩ := hall q (List.mem_toFinset.mp hq)
    rcases List.mem_append.mp hu with hu | hu
    · exact Finset.mem_insert_of_mem (mem_eofs.mpr (List.mem_map.mpr ⟨u, hu, he⟩))
    · rw [List.mem_singleton.mp hu, ht, Polled.eof.injEq] at he
      exact he ▸ Finset.mem_insert_self _ _

end Trace

/-- A history whose last poll meets the exit test of the loop. -/
def ExitTest (history : List Turn) : Prop := EndsAtEof history ∧ EverReported history

section Drain
variable {α : Type} {deserializer : Deserializer α} {history h pre : List Turn} {t : Turn}

private theorem EndsAtEof.exists_snoc (h : EndsAtEof history) : ∃ pre t, history = pre ++ [t] := by
  rcases List.eq_nil_or_concat history with rfl | ⟨pre, t, hsplit⟩
  · obtain ⟨p, hp⟩ := h
    cases hp
  · exact ⟨pre, t, by rw [hsplit, List.concat_eq_append]⟩

private theorem traceOf_split (h : pre ++ [t] <+: history) : traceOf history =
    traceOf pre ++ ⟨t.polled, assignmentAfter (pre ++ [t])⟩ :: (traceOf history).drop (pre ++ [t]).length := by
  have htake := traceOf_take (pre ++ [t]) history h
  rw [traceOf_snoc] at htake
  conv_lhs => rw [← List.take_append_drop (pre ++ [t]).length (traceOf history), htake]
  rw [List.append_assoc, List.singleton_append]

/-- Every split of a trace at an event comes from a split of its history at a turn. -/
theorem exists_split {xs ys : List PollEvent} {e : PollEvent} (h : traceOf history = xs ++ e :: ys) :
    ∃ pre t, pre ++ [t] <+: history ∧ xs = traceOf pre ∧ e = ⟨t.polled, assignmentAfter (pre ++ [t])⟩ := by
  have hlen : xs.length + 1 ≤ history.length := by
    have := congrArg List.length h
    simp only [traceOf_length, List.length_append, List.length_cons] at this
    omega
  have hprefix : history.take (xs.length + 1) <+: history := List.take_prefix _ _
  have htake := traceOf_take _ _ hprefix
  rw [List.length_take, Nat.min_eq_left hlen, h, List.append_cons,
    List.take_left' (by simp)] at htake
  rcases List.eq_nil_or_concat (history.take (xs.length + 1)) with hnil | ⟨pre, t, hsplit⟩
  · have := congrArg List.length hnil
    simp only [List.length_take, List.length_nil] at this
    omega
  · rw [List.concat_eq_append] at hsplit
    rw [hsplit, traceOf_snoc] at htake
    obtain ⟨hxs, he⟩ := List.append_inj' htake rfl
    exact ⟨pre, t, hsplit ▸ hprefix, hxs, by simpa using he⟩

/-- The loop runs on over a history as long as no poll of it meets the exit test. -/
theorem runsOn_iff : RunsOn ∅ (traceOf history) ↔ ∀ xs, xs <+: history → ¬ ExitTest xs := by
  constructor
  · intro hrun xs hxs hexit
    obtain ⟨pre, t, rfl⟩ := hexit.1.exists_snoc
    apply hrun _ _ _ (traceOf_split hxs)
    rw [Finset.empty_union]
    exact (stops_iff pre t).mpr hexit
  · intro hnone xs e ys hsplit hstop
    obtain ⟨pre, t, hprefix, rfl, rfl⟩ := exists_split hsplit
    rw [Finset.empty_union] at hstop
    exact hnone _ hprefix ((stops_iff pre t).mp hstop)

/-- The loop over a history returns after the polls of a prefix, leaving the others unread. -/
def ReturnsAfter (deserializer : Deserializer α) (history h : List Turn) : Prop :=
  ∃ results, drain deserializer (traceOf history) = (.returned results, (traceOf history).drop h.length)

/-- When the loop returns: at the first poll that meets the exit test, if the messages
before it decode. -/
theorem returnsAfter_iff (hh : h <+: history) :
    ReturnsAfter deserializer history h ↔ First ExitTest h ∧ DecodesBefore deserializer h := by
  simp only [ReturnsAfter, drain, drainFrom_returned_exact, Finset.empty_union]
  constructor
  · rintro ⟨results, xs, e, hsplit, hdec, hrun, hstop, -⟩
    obtain ⟨pre, t, hprefix, rfl, rfl⟩ := exists_split hsplit
    have hlen := congrArg List.length hsplit
    simp only [List.length_append, List.length_cons, List.length_drop, traceOf_length] at hlen
    have hle := hh.length_le
    have hle' := hprefix.length_le
    have heqlen : h.length = (pre ++ [t]).length := by
      simp only [List.length_append, List.length_singleton] at hle' ⊢
      omega
    have heq : h = pre ++ [t] := by
      rcases List.prefix_or_prefix_of_prefix hh hprefix with hp | hp
      · exact hp.eq_of_length heqlen
      · exact (hp.eq_of_length heqlen.symm).symm
    subst heq
    refine ⟨⟨(stops_iff pre t).mp hstop, fun ys hys hexit => ?_⟩, ?_⟩
    · rcases List.prefix_concat_iff.mp hys with rfl | hys
      · rfl
      · exact absurd hexit (runsOn_iff.mp hrun ys hys)
    · rwa [DecodesBefore, List.dropLast_concat, ← polls_traceOf]
  · rintro ⟨hfirst, hdec⟩
    obtain ⟨pre, t, rfl⟩ := hfirst.1.1.exists_snoc
    rw [DecodesBefore, List.dropLast_concat, ← polls_traceOf] at hdec
    refine ⟨_, traceOf pre, _, traceOf_split hh, hdec, runsOn_iff.mpr fun xs hxs hexit => ?_,
      (stops_iff pre t).mpr hfirst.1, rfl⟩
    have hlen := congrArg List.length (hfirst.2 xs (hxs.trans (List.prefix_append _ _)) hexit)
    have hle := hxs.length_le
    simp only [List.length_append, List.length_singleton] at hlen
    omega

/-- The loop returns after the first poll at which every assigned partition of a non-empty
assignment has reported its end since it was last assigned, and after no other. -/
def StopsWhenRead (deserializer : Deserializer α) (history : List Turn) : Prop :=
  ∀ h, h <+: history → (ReturnsAfter deserializer history h ↔ First ReadToEnd h)

/-- No poll meets the exit test on an end reported before the partition was given back,
unless a message before it does not decode. -/
def NoStaleExit (deserializer : Deserializer α) (history : List Turn) : Prop :=
  ∀ h, h <+: history → ExitTest h → DecodesBefore deserializer h → ∃ xs, xs <+: h ∧ ReadToEnd xs

/-- The poll at which everything assigned is read reports an end itself, and the messages
before it decode. -/
def ReadAtEof (deserializer : Deserializer α) (history : List Turn) : Prop :=
  ∀ h, h <+: history → First ReadToEnd h → EndsAtEof h ∧ DecodesBefore deserializer h

theorem DecodesBefore.mono {xs : List Turn} (hd : DecodesBefore deserializer h) (hxs : xs <+: h) :
    DecodesBefore deserializer xs := by
  have hlast : xs.dropLast <+: h.dropLast := by
    apply List.prefix_of_prefix_length_le (xs.dropLast_prefix.trans hxs) h.dropLast_prefix
    rw [List.length_dropLast, List.length_dropLast]
    exact Nat.sub_le_sub_right hxs.length_le 1
  obtain ⟨ys, hys⟩ := hlast
  intro m hm
  apply hd m
  rw [← hys, List.map_append, messages_append]
  exact List.mem_append_left _ hm

/-- Over every history `drain` stops exactly when it should if and only if neither a stale
end completes the exit test first nor the assignment is completed by another poll than an end. -/
theorem stops_when_read_iff (deserializer : Deserializer α) (history : List Turn) :
    StopsWhenRead deserializer history ↔
      NoStaleExit deserializer history ∧ ReadAtEof deserializer history := by
  constructor
  · intro hstops
    constructor
    · intro h hh hexit hdec
      -- the loop has returned by then, so everything assigned was read by then
      obtain ⟨xs, hxs, hfirst⟩ := exists_first hexit
      have hreturns := (returnsAfter_iff (hxs.trans hh)).mpr ⟨hfirst, hdec.mono hxs⟩
      exact ⟨xs, hxs, ((hstops xs (hxs.trans hh)).mp hreturns).1⟩
    · intro h hh hread
      obtain ⟨hexit, hdec⟩ := (returnsAfter_iff hh).mp ((hstops h hh).mpr hread)
      exact ⟨hexit.1.1, hdec⟩
  · rintro ⟨hstale, heof⟩ h hh
    rw [returnsAfter_iff hh]
    constructor
    · rintro ⟨hexit, hdec⟩
      obtain ⟨ys, hys, hread⟩ := hstale h hh hexit.1 hdec
      obtain ⟨xs, hxs, hfirst⟩ := exists_first hread
      have hpre := hxs.trans hys
      have hends := (heof xs (hpre.trans hh) hfirst).1
      have heq := hexit.2 xs hpre ⟨hends, hfirst.1.everReported⟩
      exact heq ▸ hfirst
    · intro hfirst
      obtain ⟨hends, hdec⟩ := heof h hh hfirst
      refine ⟨⟨⟨hends, hfirst.1.everReported⟩, fun xs hxs hexit => ?_⟩, hdec⟩
      obtain ⟨ys, hys, hread⟩ := hstale xs (hxs.trans hh) hexit (hdec.mono hxs)
      have heq := hfirst.2 ys (hys.trans hxs) hread
      exact hxs.eq_of_length_le (heq ▸ hys.length_le)

end Drain

/-! Partition 0 is read to its end, taken away and given back with partition 1 unread. -/

def regranted : List Turn :=
  [⟨[.assigned 0, .assigned 1], .eof 0⟩,
    ⟨[.revoked 0, .revoked 1, .assigned 0, .assigned 1], .eof 1⟩]

/-- The loop returns on the end that partition 0 reported before it was given back. -/
theorem stops_with_unread_partition :
    ¬ ∀ (deserializer : Deserializer Unit) (history : List Turn), StopsWhenRead deserializer history := by
  intro hall
  have hreturns : ReturnsAfter (fun _ => .ok none : Deserializer Unit) regranted regranted := ⟨[], rfl⟩
  have hread := ((hall _ regranted regranted List.prefix_rfl).mp hreturns).1.2 0 (by decide)
  obtain ⟨before, t, after, hsplit, ht, hafter⟩ := hread
  match before, hsplit with
  | [], hsplit =>
    simp only [regranted, List.nil_append, List.cons.injEq] at hsplit
    exact hafter _ (hsplit.2 ▸ List.mem_singleton_self _) (by decide)
  | [_], hsplit =>
    simp only [regranted, List.cons_append, List.nil_append, List.cons.injEq] at hsplit
    rw [← hsplit.2.1] at ht
    cases ht
  | _ :: _ :: _, hsplit => simp [regranted] at hsplit

end Shipstream.Simulations.BackwardCompat
