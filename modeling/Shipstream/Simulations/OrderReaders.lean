import Shipstream.Orders.Envelope
import Shipstream.Services.Consumer
import Shipstream.Simulations.ConsumerV2
import Shipstream.Simulations.BackwardCompat.Drain

/-! The three readers of order.created on one trace of poll results: services/consumer.py,
consumer_v2.py and `drain` of sim_backward_compat.py. -/
namespace Shipstream.Simulations.OrderReaders
open Kafka Orders BackwardCompat Transition

/-- The deserializers of the two schema versions: no order for a null value, an exception
for a malformed one, else an order, version 2 reading the same values up to the region. -/
structure Deserializers where
  v1 : Deserializer V1.Order
  v2 : Deserializer V2.Order
  null₁ : v1 none = .ok none
  null₂ : v2 none = .ok none
  yields : ∀ raw, v1 (some raw) ≠ .ok none
  accepted : ∀ raw order, v1 (some raw) = .ok (some order) → v2 (some raw) = .ok (some order.toOrder)
  refused : ∀ raw text, v1 (some raw) = .error text → ∃ text', v2 (some raw) = .error text'

variable {d : Deserializers}

/-- The order of a good value, none for a null or malformed one. -/
def Deserializers.order? (d : Deserializers) (m : Message) : Option V1.Order :=
  match d.v1 m.value with
  | .ok order => order
  | .error _ => none

/-- A poll result with a null or malformed value. -/
def Bad (d : Deserializers) (polled : Polled) : Prop := ∃ m, polled = .message m ∧ d.order? m = none

/-- The messages with a good value among poll results, with their orders. -/
def good (d : Deserializers) (polls : List Polled) : List (Message × V1.Order) :=
  (messages polls).filterMap fun m => (d.order? m).map fun order => (m, order)

/-- What a poll result means to a reader. -/
inductive Kind (d : Deserializers) : Polled → Prop where
  | timeout : Kind d .timeout
  | eof (p : Nat) : Kind d (.eof p)
  | error (text : String) : Kind d (.error text)
  | null (m : Message) (hv : m.value = none) : Kind d (.message m)
  | malformed (m : Message) (raw : Protobuf.Bytes) (text text' : String) (hv : m.value = some raw)
      (h₁ : d.v1 m.value = .error text) (h₂ : d.v2 m.value = .error text') : Kind d (.message m)
  | good (m : Message) (raw : Protobuf.Bytes) (order : V1.Order) (hv : m.value = some raw)
      (h₁ : d.v1 m.value = .ok (some order)) (h₂ : d.v2 m.value = .ok (some order.toOrder)) : Kind d (.message m)

private theorem kind (d : Deserializers) (polled : Polled) : Kind d polled := by
  cases polled with
  | timeout => exact .timeout
  | eof p => exact .eof p
  | error text => exact .error text
  | message m =>
    cases hv : m.value with
    | none => exact .null m hv
    | some raw =>
      cases h₁ : d.v1 (some raw) with
      | error text =>
        obtain ⟨text', h₂⟩ := d.refused raw text h₁
        exact .malformed m raw text text' hv (hv ▸ h₁) (hv ▸ h₂)
      | ok order? =>
        cases order? with
        | none => exact absurd h₁ (d.yields raw)
        | some order => exact .good m raw order hv (hv ▸ h₁) (hv ▸ d.accepted raw order h₁)

/-! Splitting a trace at a bad record. -/

private theorem good_append (xs ys : List Polled) : good d (xs ++ ys) = good d xs ++ good d ys := by
  rw [good, messages_append, List.filterMap_append]
  rfl

private theorem good_cons (polled : Polled) (rest : List Polled) :
    good d (polled :: rest) = good d [polled] ++ good d rest :=
  good_append [polled] rest

/-- A bad record holds no order. -/
theorem Bad.good {polled : Polled} (h : Bad d polled) : good d [polled] = [] := by
  obtain ⟨m, rfl, hm⟩ := h
  simp [OrderReaders.good, messages, Polled.message?, hm]

private theorem bad_of_null {m : Message} (hv : m.value = none) : Bad d (.message m) :=
  ⟨m, rfl, by simp only [Deserializers.order?, hv, d.null₁]⟩

private theorem bad_of_malformed {m : Message} {text : String} (h₁ : d.v1 m.value = .error text) : Bad d (.message m) :=
  ⟨m, rfl, by simp only [Deserializers.order?, h₁]⟩

private theorem good_message {m : Message} {order : V1.Order} (h₁ : d.v1 m.value = .ok (some order)) :
    good d [.message m] = [(m, order)] := by
  simp [good, messages, Polled.message?, Deserializers.order?, h₁]

private theorem not_bad_message {m : Message} {order : V1.Order} (h₁ : d.v1 m.value = .ok (some order)) :
    ¬ Bad d (.message m) := by
  intro hbad
  have := hbad.good
  rw [good_message h₁] at this
  cases this

/-! services/consumer.py -/

/-- An iteration of the consumer goes on, and prints a row exactly for a good value. -/
theorem iteration_spec (polled : Polled) :
    (Services.iteration d.v1 polled = .silent ∧ good d [polled] = []) ∨
      ∃ line, Services.iteration d.v1 polled = .printed line ∧
        line.row?.toList = (good d [polled]).map fun g => Services.orderRow g.1 g.2 := by
  cases kind d polled with
  | timeout => exact .inl ⟨rfl, rfl⟩
  | eof p => exact .inr ⟨_, rfl, rfl⟩
  | error text => exact .inr ⟨_, rfl, rfl⟩
  | null m hv =>
    refine .inr ⟨.noneValue, by simp only [Services.iteration, hv], ?_⟩
    rw [(bad_of_null hv).good]
    rfl
  | malformed m raw text text' hv h₁ =>
    refine .inr ⟨.undecodable text, by simp only [Services.iteration, hv, hv ▸ h₁], ?_⟩
    rw [(bad_of_malformed h₁).good]
    rfl
  | good m raw order hv h₁ =>
    refine .inr ⟨.order (Services.orderRow m order), by simp only [Services.iteration, hv, hv ▸ h₁], ?_⟩
    rw [good_message h₁]
    rfl

/-- The consumer prints the rows of the good values, and nothing in a trace ends it. -/
theorem consumer_spec (trace : List Polled) :
    (Services.pollLoop d.v1 trace).rows = (good d trace).map (fun g => Services.orderRow g.1 g.2) ∧
      (Services.pollLoop d.v1 trace).raised = none := by
  induction trace with
  | nil => exact ⟨rfl, rfl⟩
  | cons polled rest ih =>
    obtain ⟨hrows, hraised⟩ := ih
    rw [good_cons, List.map_append, ← hrows]
    rcases iteration_spec polled with ⟨hit, hgood⟩ | ⟨line, hit, hrow⟩
    · rw [hgood, Services.pollLoop, hit]
      exact ⟨rfl, hraised⟩
    · rw [← hrow, Services.pollLoop, hit]
      refine ⟨?_, hraised⟩
      simp only [Services.Output.rows, List.filterMap_cons]
      cases line.row? <;> rfl

/-! consumer_v2.py -/

/-- The row of version 2 is the consumer's without the region. -/
def dropRegion (row : Services.OrderRow) : ConsumerV2.OrderRow :=
  ⟨row.partition, row.offset, row.id, row.customerId, row.item, row.amount, row.status⟩

/-- Ten good values come before every bad record, of which some have been read already. -/
def BadAfterTen (d : Deserializers) (read : Nat) (trace : List Polled) : Prop :=
  ∀ pre polled post, trace = pre ++ polled :: post → Bad d polled → 10 ≤ read + (good d pre).length

private theorem badAfterTen_cons {read : Nat} {polled : Polled} {rest : List Polled} :
    BadAfterTen d read (polled :: rest) ↔
      (Bad d polled → 10 ≤ read) ∧ BadAfterTen d (read + (good d [polled]).length) rest := by
  rw [BadAfterTen, forall_split_cons (Q := fun pre polled => Bad d polled → 10 ≤ read + (good d pre).length)]
  refine and_congr Iff.rfl (forall_congr' fun pre => ?_)
  rw [good_cons, List.length_append, Nat.add_assoc]

/-- An iteration of version 2 before its tenth row: a bad record ends the loop, and anything
else is passed over with a row exactly for a good value. -/
theorem v2_step {read : Nat} (hread : read < 10) (polled : Polled) (rest : List Polled) :
    (Bad d polled ∧ ∃ error, ConsumerV2.pollLoop d.v2 read (polled :: rest) = ⟨[], .raised error⟩) ∨
      ¬ Bad d polled ∧
        (ConsumerV2.pollLoop d.v2 read (polled :: rest)).ending =
          (ConsumerV2.pollLoop d.v2 (read + (good d [polled]).length) rest).ending ∧
        (ConsumerV2.pollLoop d.v2 read (polled :: rest)).rows =
          (good d [polled]).map (fun g => ConsumerV2.orderRow g.1 g.2.toOrder) ++
            (ConsumerV2.pollLoop d.v2 (read + (good d [polled]).length) rest).rows := by
  cases kind d polled with
  | timeout | eof | error =>
    simp only [ConsumerV2.pollLoop, hread, if_true]
    refine .inr ⟨?_, rfl, rfl⟩
    rintro ⟨m, hm, -⟩
    cases hm
  | null m hv =>
    refine .inl ⟨bad_of_null hv, "'NoneType' object has no attribute 'id'", ?_⟩
    simp only [ConsumerV2.pollLoop, hread, if_true, hv, d.null₂]
  | malformed m raw text text' hv h₁ h₂ =>
    refine .inl ⟨bad_of_malformed h₁, text', ?_⟩
    simp only [ConsumerV2.pollLoop, hread, if_true, h₂]
  | good m raw order hv h₁ h₂ =>
    refine .inr ⟨not_bad_message h₁, ?_⟩
    rw [good_message h₁]
    simp only [ConsumerV2.pollLoop, hread, if_true, h₂]
    exact ⟨rfl, rfl⟩

private theorem good_length_le (polled : Polled) : (good d [polled]).length ≤ 1 := by
  apply (List.length_filterMap_le _ _).trans
  cases polled <;> simp [messages, Polled.message?, List.filterMap_cons]

/-- The loop of version 2 is ended by a bad record that comes before its tenth row, and
otherwise prints the rows of the good values up to the tenth. -/
theorem v2_spec (trace : List Polled) {read : Nat} (hread : read ≤ 10) :
    ((∀ error, (ConsumerV2.pollLoop d.v2 read trace).ending ≠ .raised error) ↔ BadAfterTen d read trace) ∧
      (BadAfterTen d read trace → (ConsumerV2.pollLoop d.v2 read trace).rows =
        ((good d trace).take (10 - read)).map fun g => ConsumerV2.orderRow g.1 g.2.toOrder) := by
  induction trace generalizing read with
  | nil =>
    refine ⟨⟨fun _ pre polled post h => by simp at h, fun _ error => ?_⟩, fun _ => ?_⟩
    · simp only [ConsumerV2.pollLoop]
      split <;> simp
    · rw [show good d [] = [] from rfl, List.take_nil]
      rfl
  | cons polled rest ih =>
    rw [badAfterTen_cons, good_cons polled rest]
    rcases Nat.lt_or_eq_of_le hread with hlt | rfl
    · rcases v2_step hlt polled rest with ⟨hbad, error, hloop⟩ | ⟨hbad, hending, hrows⟩
      · rw [hloop]
        refine ⟨⟨fun h => absurd rfl (h error), fun h => ?_⟩, fun h => ?_⟩
        · exact absurd (h.1 hbad) (Nat.not_le.mpr hlt)
        · exact absurd (h.1 hbad) (Nat.not_le.mpr hlt)
      · have hle : read + (good d [polled]).length ≤ 10 := by
          have := good_length_le (d := d) polled
          omega
        obtain ⟨hraised, hrest⟩ := ih hle
        rw [hending, hrows]
        refine ⟨hraised.trans ⟨fun h => ⟨fun hb => absurd hb hbad, h⟩, fun h => h.2⟩, fun h => ?_⟩
        have htake : (good d [polled]).take (10 - read) = good d [polled] := List.take_of_length_le (by omega)
        rw [hrest h.2, List.take_append, List.map_append, htake, Nat.sub_add_eq]
    · -- ten rows are printed and the loop polls no more
      have hloop : ConsumerV2.pollLoop d.v2 10 (polled :: rest) = ⟨[], .done (ConsumerV2.closingLine 10)⟩ := by
        simp [ConsumerV2.pollLoop]
      rw [hloop]
      refine ⟨⟨fun _ => ⟨fun _ => le_rfl, fun _ _ _ _ _ => ?_⟩, fun _ error => ?_⟩, fun _ => rfl⟩
      · omega
      · simp

/-! `drain` -/

/-- The results gathered so far; none after an exception. -/
def gathered {α : Type} : DrainOutcome α → Option (List (Message × Option α))
  | .polling st => some st.results
  | .returned results => some results
  | .raised _ => none

/-- A deserializer that reads what version 1 reads, as another version of the order. -/
structure Agrees {α : Type} (d : Deserializers) (version : V1.Order → α) (deserializer : Deserializer α) : Prop where
  null : deserializer none = .ok none
  accepted : ∀ raw order, d.v1 (some raw) = .ok (some order) → deserializer (some raw) = .ok (some (version order))
  refused : ∀ raw text, d.v1 (some raw) = .error text → ∃ text', deserializer (some raw) = .error text'

private theorem Deserializers.agrees₁ (d : Deserializers) : Agrees d id d.v1 :=
  ⟨d.null₁, fun _ _ h => h, fun _ text h => ⟨text, h⟩⟩

private theorem Deserializers.agrees₂ (d : Deserializers) : Agrees d V1.Order.toOrder d.v2 :=
  ⟨d.null₂, d.accepted, d.refused⟩

section Drain
variable {α : Type} {version : V1.Order → α} {deserializer : Deserializer α}

/-- The good messages of a part of a trace as `drain` stores them. -/
def stored (d : Deserializers) (version : V1.Order → α) (part : List PollEvent) : List (Message × Option α) :=
  (good d (polls part)).map fun g => (g.1, some (version g.2))

/-- `drain` holds exactly the good messages of the part of the trace it has read. -/
def HoldsGood (d : Deserializers) (version : V1.Order → α) (deserializer : Deserializer α)
    (trace : List PollEvent) : Prop :=
  ∃ part, trace = part ++ (drain deserializer trace).2 ∧
    gathered (drain deserializer trace).1 = some (stored d version part)

/-- An event that meets the exit test of `drain` comes before every bad record. -/
def BadAfterStop (d : Deserializers) (ended : Finset Nat) (trace : List PollEvent) : Prop :=
  ∀ pre e post, trace = pre ++ e :: post → Bad d e.polled → ¬ RunsOn ended pre

private theorem runsOn_nil (ended : Finset Nat) : RunsOn ended [] := by
  intro xs e ys h
  simp at h

/-- The loop only appends to its results. -/
theorem gathered_prefix {st : DrainState α} {trace : List PollEvent} {results : List (Message × Option α)}
    (h : gathered (drainFrom deserializer st trace).1 = some results) : st.results <+: results := by
  induction trace generalizing st with
  | nil =>
    cases h
    exact List.prefix_rfl
  | cons e trace ih =>
    by_cases hd : Decodes deserializer [e.polled]
    · rcases drainStep_spec deserializer st e hd with ⟨-, hstep⟩ | ⟨-, hstep⟩
      · simp only [drainFrom, hstep, gathered, Option.some.injEq] at h
        exact h ▸ List.prefix_rfl
      · simp only [drainFrom, hstep] at h
        exact (List.prefix_append _ _).trans (ih h)
    · obtain ⟨text, hstep⟩ := drainStep_raised deserializer st e hd
      simp only [drainFrom, hstep, gathered, reduceCtorEq] at h

private theorem drainFrom_suffix (deserializer : Deserializer α) (st : DrainState α) (trace : List PollEvent) :
    (drainFrom deserializer st trace).2 <:+ trace := by
  induction trace generalizing st with
  | nil => exact List.suffix_rfl
  | cons e trace ih =>
    rw [drainFrom]
    split
    · exact (ih _).trans (List.suffix_cons _ _)
    · exact List.suffix_cons _ _
    · exact List.suffix_cons _ _

/-- A good value, or no message, decodes to what `drain` should store. -/
theorem Agrees.stored_of_good (h : Agrees d version deserializer) {e : PollEvent} (hbad : ¬ Bad d e.polled) :
    Decodes deserializer [e.polled] ∧ (messages [e.polled]).map (decoded deserializer) = stored d version [e] := by
  obtain ⟨polled, assignment⟩ := e
  cases kind d polled with
  | timeout | eof | error =>
    refine ⟨fun m hm => ?_, rfl⟩
    cases hm
  | null m hv => exact absurd (bad_of_null hv) hbad
  | malformed m raw text text' hv h₁ => exact absurd (bad_of_malformed h₁) hbad
  | good m raw order hv h₁ =>
    have horder : deserializer m.value = .ok (some (version order)) := by
      rw [hv]
      exact h.accepted raw order (hv ▸ h₁)
    constructor
    · intro m' hm'
      cases List.mem_singleton.mp hm'
      exact ⟨_, horder⟩
    · simp only [stored, polls, List.map_cons, List.map_nil, good_message h₁]
      simp only [messages, Polled.message?, List.filterMap_cons, List.filterMap_nil, List.map_cons, List.map_nil,
        decoded, horder]

/-- A bad record ends the loop, or leaves a result without an order. -/
theorem Agrees.step_of_bad (h : Agrees d version deserializer) (st : DrainState α) {e : PollEvent}
    (hbad : Bad d e.polled) :
    (∃ text, drainStep deserializer st e = .raised text) ∨
      ∃ m, drainStep deserializer st e = .polling ⟨st.results ++ [(m, none)], st.eofPartitions⟩ := by
  obtain ⟨polled, assignment⟩ := e
  obtain ⟨m, rfl, hm⟩ := hbad
  cases kind d (.message m) with
  | null _ hv =>
    refine .inr ⟨m, ?_⟩
    simp only [drainStep, hv, h.null]
  | malformed _ raw text text' hv h₁ =>
    obtain ⟨text'', hr⟩ := h.refused raw text (hv ▸ h₁)
    refine .inl ⟨text'', ?_⟩
    simp only [drainStep, hv, hr]
  | good _ raw order hv h₁ => exact absurd ⟨m, rfl, hm⟩ (not_bad_message h₁)

private theorem stored_cons (e : PollEvent) (part : List PollEvent) :
    stored d version (e :: part) = stored d version [e] ++ stored d version part := by
  simp only [stored, polls, List.map_cons, List.map_nil]
  rw [good_cons, List.map_append]

private theorem badAfterStop_cons {ended : Finset Nat} {e : PollEvent} {rest : List PollEvent} :
    BadAfterStop d ended (e :: rest) ↔
      ¬ Bad d e.polled ∧ (Stops ended e ∨ BadAfterStop d (ended ∪ eofs [e.polled]) rest) := by
  rw [BadAfterStop, forall_split_cons (Q := fun pre e => Bad d e.polled → ¬ RunsOn ended pre)]
  refine and_congr ⟨fun h hbad => h hbad (runsOn_nil ended), fun h hbad => absurd hbad h⟩ ?_
  by_cases hs : Stops ended e
  · simp only [runsOn_cons, hs, not_true_eq_false, false_and, not_false_eq_true, implies_true, true_or]
  · simp only [runsOn_cons, hs, not_false_eq_true, true_and, false_or, BadAfterStop]

/-- From a state on, the loop adds exactly the good messages of the part it reads. -/
def AddsGood (d : Deserializers) (version : V1.Order → α) (deserializer : Deserializer α) (st : DrainState α)
    (trace : List PollEvent) : Prop :=
  ∃ part, trace = part ++ (drainFrom deserializer st trace).2 ∧
    gathered (drainFrom deserializer st trace).1 = some (st.results ++ stored d version part)

/-- After a bad record the results are lost, or hold one without an order for good. -/
theorem Agrees.not_addsGood (h : Agrees d version deserializer) {st : DrainState α} {e : PollEvent}
    {rest : List PollEvent} (hbad : Bad d e.polled) : ¬ AddsGood d version deserializer st (e :: rest) := by
  rintro ⟨part, -, hres⟩
  rcases h.step_of_bad st hbad with ⟨text, hstep⟩ | ⟨m, hstep⟩
  · simp only [drainFrom, hstep, gathered, reduceCtorEq] at hres
  · simp only [drainFrom, hstep] at hres
    obtain ⟨more, hmore⟩ := gathered_prefix hres
    rw [List.append_assoc, List.append_cancel_left_eq] at hmore
    have hmem : (m, none) ∈ stored d version part := by
      rw [← hmore]
      exact List.mem_append_left _ (List.mem_singleton_self _)
    obtain ⟨g, -, hg⟩ := List.mem_map.mp hmem
    cases hg

/-- From any state, the loop adds exactly the good messages it reads if and only if it meets
its exit test before every bad record. Induction over the trace. -/
theorem Agrees.addsGood_iff (h : Agrees d version deserializer) (st : DrainState α) (trace : List PollEvent) :
    AddsGood d version deserializer st trace ↔ BadAfterStop d st.eofPartitions trace := by
  induction trace generalizing st with
  | nil =>
    refine ⟨fun _ pre e post hsplit => by simp at hsplit, fun _ => ⟨[], rfl, ?_⟩⟩
    rw [show stored d version [] = [] from rfl, List.append_nil]
    rfl
  | cons e rest ih =>
    rw [badAfterStop_cons]
    by_cases hbad : Bad d e.polled
    · exact iff_of_false (h.not_addsGood hbad) fun hall => hall.1 hbad
    · obtain ⟨hd, hstored⟩ := h.stored_of_good hbad
      rcases drainStep_spec deserializer st e hd with ⟨hs, hstep⟩ | ⟨hs, hstep⟩
      · -- the loop returns, and the event that stops it carries no message
        refine iff_of_true ⟨[e], ?_, ?_⟩ ⟨hbad, .inl hs⟩
        · simp only [drainFrom, hstep, List.singleton_append]
        · obtain ⟨p, hp, -⟩ := hs
          rw [← hstored, hp]
          simp [drainFrom, hstep, gathered, messages, Polled.message?]
      · simp only [hbad, not_false_eq_true, true_and, hs, false_or]
        rw [← ih ⟨st.results ++ stored d version [e], st.eofPartitions ∪ eofs [e.polled]⟩]
        simp only [AddsGood, drainFrom, hstep]
        rw [hstored, exists_part_cons (drainFrom_suffix deserializer _ rest)]
        refine exists_congr fun part => and_congr Iff.rfl ?_
        rw [stored_cons e part, List.append_assoc]

private theorem Agrees.holdsGood_iff (h : Agrees d version deserializer) (trace : List PollEvent) :
    HoldsGood d version deserializer trace ↔ BadAfterStop d ∅ trace := by
  rw [← h.addsGood_iff ⟨[], ∅⟩ trace]
  rfl

private theorem HoldsGood.not_raised {trace : List PollEvent} (h : HoldsGood d version deserializer trace)
    (error : String) :
    (drain deserializer trace).1 ≠ .raised error := by
  intro hraised
  obtain ⟨part, -, hgathered⟩ := h
  rw [hraised] at hgathered
  cases hgathered

end Drain

/-- The three readers treat one trace alike, and nothing in it ends any of them. -/
structure ReadAlike (d : Deserializers) (trace : List PollEvent) : Prop where
  rows : (ConsumerV2.main d.v2 (polls trace)).rows =
    ((Services.pollLoop d.v1 (polls trace)).rows.take 10).map dropRegion
  drained₁ : HoldsGood d id d.v1 trace
  drained₂ : HoldsGood d V1.Order.toOrder d.v2 trace
  consumer : (Services.pollLoop d.v1 (polls trace)).raised = none
  consumerV2 : ∀ error, (ConsumerV2.main d.v2 (polls trace)).ending ≠ .raised error
  drain₁ : ∀ error, (drain d.v1 trace).1 ≠ .raised error
  drain₂ : ∀ error, (drain d.v2 trace).1 ≠ .raised error

/-- Every null or malformed value comes after ten good values and after an event at which
`drain` meets its exit test. -/
def BadAfterReaders (d : Deserializers) (trace : List PollEvent) : Prop :=
  ∀ pre e post, trace = pre ++ e :: post → Bad d e.polled →
    10 ≤ (good d (polls pre)).length ∧ ¬ RunsOn ∅ pre

private theorem badAfterReaders_iff {trace : List PollEvent} :
    BadAfterReaders d trace ↔ BadAfterTen d 0 (polls trace) ∧ BadAfterStop d ∅ trace := by
  constructor
  · intro h
    refine ⟨fun pre polled post hsplit hbad => ?_, fun pre e post hsplit hbad => (h pre e post hsplit hbad).2⟩
    obtain ⟨xs, ys, rfl, rfl, hys⟩ := List.map_eq_append_iff.mp hsplit
    obtain ⟨e, zs, rfl, rfl, -⟩ := List.map_eq_cons_iff.mp hys
    rw [Nat.zero_add]
    exact (h xs e zs rfl hbad).1
  · rintro ⟨hten, hstop⟩ pre e post hsplit hbad
    refine ⟨?_, hstop pre e post hsplit hbad⟩
    have := hten (polls pre) e.polled (polls post) (by rw [hsplit, polls, List.map_append]; rfl) hbad
    rwa [Nat.zero_add] at this

/-- The three readers agree on a trace if and only if the two of them that do not guard
against a bad record have stopped reading before the first one. -/
theorem readers_alike_iff (d : Deserializers) (trace : List PollEvent) :
    ReadAlike d trace ↔ BadAfterReaders d trace := by
  obtain ⟨hraised, hrows⟩ := v2_spec (d := d) (polls trace) (Nat.zero_le 10)
  obtain ⟨hconsumer, hnever⟩ := consumer_spec (d := d) (polls trace)
  rw [badAfterReaders_iff]
  constructor
  · intro h
    exact ⟨hraised.mp h.consumerV2, (d.agrees₁.holdsGood_iff trace).mp h.drained₁⟩
  · rintro ⟨hten, hstop⟩
    have hd₁ := (d.agrees₁.holdsGood_iff trace).mpr hstop
    have hd₂ := (d.agrees₂.holdsGood_iff trace).mpr hstop
    refine ⟨?_, hd₁, hd₂, hnever, hraised.mpr hten, hd₁.not_raised, hd₂.not_raised⟩
    rw [ConsumerV2.main, hrows hten, hconsumer, ← List.map_take, List.map_map]
    rfl

/-- The real deserializer of version 1, and a version 2 that reads the same values. -/
def registryDeserializers : Deserializers where
  v1 := registryDeserializer V1.orderClass
  v2 value := (registryDeserializer V1.orderClass value).map (Option.map V1.Order.toOrder)
  null₁ := rfl
  null₂ := rfl
  yields raw h := registryDeserializer_ne_none raw h
  accepted raw order h := by rw [h]; rfl
  refused raw text h := ⟨text, by rw [h]; rfl⟩

/-- A tombstone ends consumer_v2.py. -/
theorem readers_differ : ¬ ∀ (d : Deserializers) (trace : List PollEvent), ReadAlike d trace := by
  intro hall
  have h := (hall registryDeserializers [⟨.message ⟨0, 0, none⟩, [0]⟩]).consumerV2
  exact h "'NoneType' object has no attribute 'id'" rfl

end Shipstream.Simulations.OrderReaders
