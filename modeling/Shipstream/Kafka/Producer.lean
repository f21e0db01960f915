import Shipstream.Transition.Run

/-! A producer client with a bounded local queue, driven by a produce loop. Delivery reports
become available when the broker answers and are served inside `poll(0)` and `flush`. -/
namespace Shipstream.Kafka.Producer
open Transition

/-- How a message fares: `produce` refuses it, or its delivery report tells. -/
inductive Outcome (ε ρ : Type) where
  | delivered (receipt : ρ)
  | failed (error : ε)
  | refused (error : ε)
  deriving DecidableEq, Repr

namespace Outcome
variable {ε ρ : Type}

def isDelivered : Outcome ε ρ → Bool
  | .delivered _ => true
  | _ => false

def isFailed : Outcome ε ρ → Bool
  | .failed _ => true
  | _ => false

def isRefused : Outcome ε ρ → Bool
  | .refused _ => true
  | _ => false

private theorem one_kind (o : Outcome ε ρ) : (if o.isDelivered then 1 else 0) + (if o.isFailed then 1 else 0) +
    (if o.isRefused then 1 else 0) = 1 := by
  cases o <;> rfl

end Outcome

/-- Where the broker has stored a message. -/
structure Receipt where
  partition : Nat
  offset : Nat
  deriving DecidableEq, Repr, Inhabited

/-- A loop that hands over `count` messages for a topic and flushes. `Vars` are the variables that
the delivery callback updates; a refusal ends the program unless a clause handles it. -/
structure Program (ε ρ Vars : Type) where
  topic : String
  count : Nat
  vars : Vars
  onDelivery : Except ε ρ → Vars → Vars
  onRefused : Option (ε → Vars → Vars)
  pollsAfter : Nat → Bool
  flushTimesOut : Bool

/-- Where the program is. While a poll serves reports, `reports` are those it has left. -/
inductive Point where
  | produce
  | poll
  | serving (reports : Finset Nat)
  | flush
  | returned
  | bufferError
  | kafkaException
  deriving DecidableEq

/-- The reports a running `poll(0)` has left to serve. -/
def Point.reports : Point → Finset Nat
  | .serving reports => reports
  | _ => ∅

/-- The loop is not left yet. -/
def Point.looping : Point → Bool
  | .produce | .poll | .serving _ => true
  | _ => false

/-- Messages are numbered in the order of the `produce` calls. `settled` lists those that
were refused or called back, in that order. -/
structure State (Vars : Type) where
  next : Nat
  accepted : Nat
  waiting : Finset Nat
  ready : Finset Nat
  settled : List Nat
  vars : Vars
  point : Point

variable {ε ρ Vars : Type}

/-- The accepted messages whose report has not been served. -/
def State.backlog (s : State Vars) : Nat := s.waiting.card + s.ready.card + s.point.reports.card

namespace Program
variable (program : Program ε ρ Vars)

/-- What a settled message does to the variables. -/
def handle : Outcome ε ρ → Vars → Vars
  | .delivered receipt, vars => program.onDelivery (.ok receipt) vars
  | .failed error, vars => program.onDelivery (.error error) vars
  | .refused error, vars =>
    match program.onRefused with
    | some onRefused => onRefused error vars
    | none => vars

/-- Where the loop goes after the `produce` call of a message. -/
def after (k : Nat) : Point := if program.pollsAfter k then .poll else .produce

def initial : State Vars := ⟨0, 0, ∅, ∅, [], program.vars, .produce⟩

end Program

inductive Event where
  | accept
  | refuse
  | raise
  | overflow
  | answer (k : Nat)
  | beginPoll
  | callback (k : Nat)
  | endPoll
  | beginFlush
  | endFlush
  deriving DecidableEq, Repr

/-- The broker answers; everything else is a step of the program. -/
def Event.isMain : Event → Bool
  | .answer _ => false
  | _ => true

/-- `produce` raises a BufferError when the backlog has reached the capacity. `poll(0)` serves
the reports available when it is called, `flush` serves reports until none is outstanding or,
given a timeout, until that has passed. -/
inductive Step (program : Program ε ρ Vars) (capacity : Nat) (outcome : Nat → Outcome ε ρ) :
    State Vars → Event → State Vars → Prop where
  | accept {s : State Vars} (hp : s.point = .produce) (hn : s.next < program.count)
      (hq : s.backlog < capacity) (ho : (outcome s.next).isRefused = false) :
      Step program capacity outcome s .accept { s with
        next := s.next + 1
        accepted := s.accepted + 1
        waiting := insert s.next s.waiting
        point := program.after s.next }
  | refuse {s : State Vars} (hp : s.point = .produce) (hn : s.next < program.count)
      (hq : s.backlog < capacity) (ho : (outcome s.next).isRefused = true) (hr : program.onRefused.isSome) :
      Step program capacity outcome s .refuse { s with
        next := s.next + 1
        settled := s.settled ++ [s.next]
        vars := program.handle (outcome s.next) s.vars
        point := program.after s.next }
  | raise {s : State Vars} (hp : s.point = .produce) (hn : s.next < program.count)
      (hq : s.backlog < capacity) (ho : (outcome s.next).isRefused = true) (hr : program.onRefused = none) :
      Step program capacity outcome s .raise { s with point := .kafkaException }
  | overflow {s : State Vars} (hp : s.point = .produce) (hn : s.next < program.count)
      (hq : capacity ≤ s.backlog) :
      Step program capacity outcome s .overflow { s with point := .bufferError }
  | answer {s : State Vars} (k : Nat) (hk : k ∈ s.waiting) :
      Step program capacity outcome s (.answer k) { s with
        waiting := s.waiting.erase k
        ready := insert k s.ready }
  | beginPoll {s : State Vars} (hp : s.point = .poll) :
      Step program capacity outcome s .beginPoll { s with ready := ∅, point := .serving s.ready }
  | pollCallback {s : State Vars} (reports : Finset Nat) (k : Nat) (hp : s.point = .serving reports)
      (hk : k ∈ reports) :
      Step program capacity outcome s (.callback k) { s with
        settled := s.settled ++ [k]
        vars := program.handle (outcome k) s.vars
        point := .serving (reports.erase k) }
  | endPoll {s : State Vars} (hp : s.point = .serving ∅) :
      Step program capacity outcome s .endPoll { s with point := .produce }
  | beginFlush {s : State Vars} (hp : s.point = .produce) (hn : s.next = program.count) :
      Step program capacity outcome s .beginFlush { s with point := .flush }
  | flushCallback {s : State Vars} (k : Nat) (hp : s.point = .flush) (hk : k ∈ s.ready) :
      Step program capacity outcome s (.callback k) { s with
        ready := s.ready.erase k
        settled := s.settled ++ [k]
        vars := program.handle (outcome k) s.vars }
  | endFlush {s : State Vars} (hp : s.point = .flush) (ht : s.backlog = 0 ∨ program.flushTimesOut) :
      Step program capacity outcome s .endFlush { s with point := .returned }

/-! Where the messages handed over are. -/

/-- Each message handed over is, once, waiting, ready, being served or settled. -/
def State.places (s : State Vars) : Multiset Nat :=
  s.waiting.val + s.ready.val + s.point.reports.val + (s.settled : Multiset Nat)

/-- The messages that a counter of the program has counted. -/
def State.tally (outcome : Nat → Outcome ε ρ) (p : Outcome ε ρ → Bool) (s : State Vars) : Nat :=
  s.settled.countP fun k => p (outcome k)

/-- What holds in every state: no message is lost or settled twice, the refused ones are exactly
those settled without having been accepted, and the variables have seen what is settled. -/
structure Inv (program : Program ε ρ Vars) (outcome : Nat → Outcome ε ρ) (s : State Vars) : Prop where
  next : s.next ≤ program.count
  places : s.places = Multiset.range s.next
  accepted : s.accepted + s.tally outcome Outcome.isRefused = s.next
  unhandled : program.onRefused = none → s.accepted = s.next
  answered : ∀ k, k ∈ s.waiting ∨ k ∈ s.ready ∨ k ∈ s.point.reports → (outcome k).isRefused = false
  vars : s.vars = s.settled.foldl (fun vars k => program.handle (outcome k) vars) program.vars
  left : s.point = .flush ∨ s.point = .returned → s.next = program.count
  flushed : s.point = .returned → s.backlog = 0 ∨ program.flushTimesOut = true

section Places
variable {s : State Vars} {outcome : Nat → Outcome ε ρ} {k : Nat}

private theorem erase_val_add {places : Finset Nat} (hk : k ∈ places) :
    (places.erase k).val + {k} = places.val := by
  rw [Finset.erase_val, add_comm, Multiset.singleton_add]
  exact Multiset.cons_erase hk

private theorem insert_val {places : Finset Nat} (hk : k ∉ places) :
    (insert k places).val = places.val + {k} := by
  rw [Finset.insert_val_of_notMem hk, add_comm, Multiset.singleton_add]

private theorem settled_snoc (settled : List Nat) :
    ((settled ++ [k] : List Nat) : Multiset Nat) = (settled : Multiset Nat) + {k} := rfl

theorem State.mem_places : k ∈ s.places ↔
    k ∈ s.waiting ∨ k ∈ s.ready ∨ k ∈ s.point.reports ∨ k ∈ s.settled := by
  simp only [State.places, Multiset.mem_add, Finset.mem_val, Multiset.mem_coe, or_assoc]

private theorem State.card_places : Multiset.card s.places = s.backlog + s.settled.length := by
  simp only [State.places, State.backlog, Multiset.card_add, Finset.card_val, Multiset.coe_card]

theorem Program.after_reports (program : Program ε ρ Vars) : (program.after k).reports = ∅ := by
  unfold Program.after
  split <;> rfl

theorem Program.after_looping (program : Program ε ρ Vars) : (program.after k).looping = true := by
  unfold Program.after
  split <;> rfl

theorem Program.after_ne (program : Program ε ρ Vars) {point : Point} (hp : point.looping = false) :
    program.after k ≠ point := by
  intro h
  rw [← h, program.after_looping] at hp
  cases hp

end Places

section Invariant
variable {program : Program ε ρ Vars} {capacity : Nat} {outcome : Nat → Outcome ε ρ}
  {s t : State Vars} {ev : Event} {k : Nat}

theorem Inv.lt_next (h : Inv program outcome s) (hk : k ∈ s.places) : k < s.next := by
  rw [h.places] at hk
  exact Multiset.mem_range.mp hk

theorem Inv.disjoint (h : Inv program outcome s) (hk : k ∈ s.waiting) : k ∉ s.ready := by
  intro hready
  have hnodup : s.places.Nodup := h.places ▸ Multiset.nodup_range _
  rw [State.places, add_assoc, add_assoc] at hnodup
  exact Multiset.disjoint_left.mp (Multiset.nodup_add.mp hnodup).2.2 hk (Multiset.mem_add.mpr (.inl hready))

theorem Inv.settled_not_inFlight (h : Inv program outcome s) (hk : k ∈ s.settled) :
    ¬ (k ∈ s.waiting ∨ k ∈ s.ready ∨ k ∈ s.point.reports) := by
  intro hflight
  have hnodup : s.places.Nodup := h.places ▸ Multiset.nodup_range _
  refine Multiset.disjoint_left.mp (Multiset.nodup_add.mp hnodup).2.2 ?_ (Multiset.mem_coe.mpr hk)
  simpa only [Multiset.mem_add, Finset.mem_val, or_assoc] using hflight

/-- The messages in flight and those settled together are those handed over. -/
theorem Inv.backlog_add (h : Inv program outcome s) : s.backlog + s.settled.length = s.next := by
  rw [← State.card_places, h.places, Multiset.card_range]

/-- What `settle`d the message `k` leaves the variables as the fold says. -/
theorem Inv.vars_snoc (h : Inv program outcome s) : program.handle (outcome k) s.vars =
    (s.settled ++ [k]).foldl (fun vars k => program.handle (outcome k) vars) program.vars := by
  rw [List.foldl_append, ← h.vars]
  rfl

private theorem tally_snoc (p : Outcome ε ρ → Bool) : (s.settled ++ [k]).countP (fun k => p (outcome k)) =
    s.tally outcome p + if p (outcome k) then 1 else 0 := by
  rw [List.countP_append, List.countP_singleton]
  rfl

/-- Calling back an accepted message leaves both counts. -/
theorem Inv.accepted_snoc (h : Inv program outcome s) (ho : (outcome k).isRefused = false) :
    s.accepted + (s.settled ++ [k]).countP (fun k => (outcome k).isRefused) = s.next := by
  rw [tally_snoc, ho, if_neg Bool.false_ne_true, Nat.add_zero]
  exact h.accepted

/-- A step moves a message from one place to another, or hands the next one over. -/
theorem Step.places (hs : Step program capacity outcome s ev t) (h : Inv program outcome s) :
    t.places = Multiset.range t.next := by
  have hplaces := h.places
  cases hs with
  | accept hp hn hq ho =>
    have hnew : s.next ∉ s.waiting := fun hmem => by
      have := h.lt_next (State.mem_places.mpr (.inl hmem))
      omega
    rw [State.places, insert_val hnew, program.after_reports, Multiset.range_succ, ← hplaces, State.places, hp,
      ← Multiset.singleton_add]
    simp only [Point.reports]
    abel
  | refuse hp hn hq ho hr =>
    rw [State.places, settled_snoc, program.after_reports, Multiset.range_succ, ← hplaces, State.places, hp,
      ← Multiset.singleton_add]
    simp only [Point.reports]
    abel
  | answer k hk =>
    have hnew : k ∉ s.ready := h.disjoint hk
    rw [← hplaces, State.places, State.places, insert_val hnew, ← erase_val_add hk]
    abel
  | beginPoll hp =>
    rw [← hplaces, State.places, State.places, hp]
    simp only [Point.reports, Finset.empty_val]
    abel
  | pollCallback reports k hp hk =>
    rw [← hplaces, State.places, State.places, hp, settled_snoc]
    simp only [Point.reports]
    rw [← erase_val_add hk]
    abel
  | flushCallback k hp hk =>
    rw [← hplaces, State.places, State.places, settled_snoc, ← erase_val_add hk]
    abel
  | raise hp | overflow hp | endPoll hp | beginFlush hp | endFlush hp =>
    rw [← hplaces, State.places, State.places, hp]
    rfl

/-- A step accepts a message, or settles one that was not accepted, or leaves both counts. -/
theorem Step.accepted (hs : Step program capacity outcome s ev t) (h : Inv program outcome s) :
    t.accepted + t.tally outcome Outcome.isRefused = t.next := by
  have haccepted := h.accepted
  cases hs with
  | accept hp hn hq ho =>
    simp only [State.tally] at haccepted ⊢
    omega
  | refuse hp hn hq ho hr =>
    simp only [State.tally, tally_snoc, ho, if_true] at haccepted ⊢
    omega
  | pollCallback reports k hp hk => exact h.accepted_snoc (h.answered k (.inr (.inr (hp ▸ hk))))
  | flushCallback k hp hk => exact h.accepted_snoc (h.answered k (.inr (.inl hk)))
  | raise | overflow | answer | beginPoll | endPoll | beginFlush | endFlush => exact haccepted

/-- Only accepted messages are in flight. -/
theorem Step.answered (hs : Step program capacity outcome s ev t) (h : Inv program outcome s) (k : Nat)
    (hk : k ∈ t.waiting ∨ k ∈ t.ready ∨ k ∈ t.point.reports) : (outcome k).isRefused = false := by
  cases hs with
  | accept hp hn hq ho =>
    rw [program.after_reports] at hk
    rcases hk with hk | hk | hk
    · rcases Finset.mem_insert.mp hk with rfl | hk
      · exact ho
      · exact h.answered k (.inl hk)
    · exact h.answered k (.inr (.inl hk))
    · cases hk
  | refuse hp hn hq ho hr =>
    rw [program.after_reports] at hk
    rcases hk with hk | hk | hk
    · exact h.answered k (.inl hk)
    · exact h.answered k (.inr (.inl hk))
    · cases hk
  | answer j hj =>
    rcases hk with hk | hk | hk
    · exact h.answered k (.inl (Finset.mem_of_mem_erase hk))
    · rcases Finset.mem_insert.mp hk with rfl | hk
      · exact h.answered k (.inl hj)
      · exact h.answered k (.inr (.inl hk))
    · exact h.answered k (.inr (.inr hk))
  | beginPoll hp =>
    rcases hk with hk | hk | hk
    · exact h.answered k (.inl hk)
    · cases hk
    · exact h.answered k (.inr (.inl hk))
  | pollCallback reports j hp hj =>
    rcases hk with hk | hk | hk
    · exact h.answered k (.inl hk)
    · exact h.answered k (.inr (.inl hk))
    · exact h.answered k (.inr (.inr (hp ▸ Finset.mem_of_mem_erase hk)))
  | flushCallback j hp hj =>
    rcases hk with hk | hk | hk
    · exact h.answered k (.inl hk)
    · exact h.answered k (.inr (.inl (Finset.mem_of_mem_erase hk)))
    · exact h.answered k (.inr (.inr hk))
  | raise | overflow | endPoll | beginFlush | endFlush =>
    rcases hk with hk | hk | hk
    · exact h.answered k (.inl hk)
    · exact h.answered k (.inr (.inl hk))
    · cases hk

/-- Without a clause for refusals the loop goes past accepted messages only. -/
theorem Step.unhandled (hs : Step program capacity outcome s ev t) (h : Inv program outcome s)
    (hr : program.onRefused = none) : t.accepted = t.next := by
  have hs' := h.unhandled hr
  cases hs with
  | accept => exact congrArg (· + 1) hs'
  | refuse hp hn hq ho hsome => simp [hr] at hsome
  | raise | overflow | answer | beginPoll | pollCallback | endPoll | beginFlush | flushCallback | endFlush =>
    exact hs'

theorem Step.inv (hs : Step program capacity outcome s ev t) (h : Inv program outcome s) :
    Inv program outcome t := by
  have hplaces := hs.places h
  have haccepted := hs.accepted h
  have hunhandled := hs.unhandled h
  have hanswered := hs.answered h
  cases hs with
  | accept hp hn hq ho =>
    refine ⟨hn, hplaces, haccepted, hunhandled, hanswered, h.vars, fun hl => ?_, fun hr => ?_⟩
    · exact absurd hl (not_or.mpr ⟨program.after_ne rfl, program.after_ne rfl⟩)
    · exact absurd hr (program.after_ne rfl)
  | refuse hp hn hq ho hr =>
    refine ⟨hn, hplaces, haccepted, hunhandled, hanswered, h.vars_snoc, fun hl => ?_, fun hr => ?_⟩
    · exact absurd hl (not_or.mpr ⟨program.after_ne rfl, program.after_ne rfl⟩)
    · exact absurd hr (program.after_ne rfl)
  | answer k hk =>
    refine ⟨h.next, hplaces, haccepted, hunhandled, hanswered, h.vars, h.left, fun hp => ?_⟩
    have hwaiting : 0 < s.waiting.card := Finset.card_pos.mpr ⟨k, hk⟩
    rcases h.flushed hp with hb | ht
    · simp only [State.backlog] at hb
      omega
    · exact .inr ht
  | pollCallback reports k hp hk =>
    exact ⟨h.next, hplaces, haccepted, hunhandled, hanswered, h.vars_snoc, by simp, by simp⟩
  | flushCallback k hp hk =>
    refine ⟨h.next, hplaces, haccepted, hunhandled, hanswered, h.vars_snoc, h.left, fun hr => ?_⟩
    rw [hp] at hr
    cases hr
  | beginFlush hp hn =>
    exact ⟨h.next, hplaces, haccepted, hunhandled, hanswered, h.vars, fun _ => hn, by simp⟩
  | endFlush hp ht =>
    refine ⟨h.next, hplaces, haccepted, hunhandled, hanswered, h.vars, fun _ => h.left (.inl hp), fun _ => ?_⟩
    rwa [State.backlog, hp] at ht
  | raise | overflow | beginPoll | endPoll =>
    exact ⟨h.next, hplaces, haccepted, hunhandled, hanswered, h.vars, by simp, by simp⟩

theorem initial_inv : Inv program outcome program.initial :=
  ⟨Nat.zero_le _, rfl, rfl, fun _ => rfl, by simp [Program.initial, Point.reports], rfl, by simp [Program.initial],
    by simp [Program.initial]⟩

theorem run_inv {events : List Event} (hrun : Run (Step program capacity outcome) program.initial events s) :
    Inv program outcome s :=
  hrun.invariant _ (fun _ _ _ => Step.inv) initial_inv

/-! Counters. -/

private theorem tally_total (s : State Vars) (outcome : Nat → Outcome ε ρ) :
    s.tally outcome Outcome.isDelivered + s.tally outcome Outcome.isFailed + s.tally outcome Outcome.isRefused =
      s.settled.length := by
  simp only [State.tally]
  induction s.settled with
  | nil => rfl
  | cons k settled ih =>
    have hkind := (outcome k).one_kind
    simp only [List.countP_cons, List.length_cons]
    omega

/-- Every accepted message is delivered, failed or not yet called back. -/
theorem Inv.conserved (h : Inv program outcome s) :
    s.tally outcome Outcome.isDelivered + s.tally outcome Outcome.isFailed + s.backlog = s.accepted := by
  have htotal := tally_total s outcome
  have hbacklog := h.backlog_add
  have haccepted := h.accepted
  omega

/-- When the flush leaves nothing outstanding every message of the loop is settled. -/
theorem Inv.settled_perm (h : Inv program outcome s) (hp : s.point = .returned) (hb : s.backlog = 0) :
    s.settled.Perm (List.range program.count) := by
  have hn := h.left (.inr hp)
  have hplaces := h.places
  simp only [State.backlog, Nat.add_eq_zero_iff, Finset.card_eq_zero] at hb
  rw [State.places, hb.1.1, hb.1.2, hb.2, hn] at hplaces
  apply Multiset.coe_eq_coe.mp
  rw [← Multiset.range, ← hplaces]
  simp only [Finset.empty_val, zero_add]

theorem Inv.tally_all (h : Inv program outcome s) (hp : s.point = .returned) (hb : s.backlog = 0)
    (p : Outcome ε ρ → Bool) : s.tally outcome p = (List.range program.count).countP fun k => p (outcome k) :=
  (h.settled_perm hp hb).countP_eq _

/-- A number among the variables that counts the settled messages of one kind. -/
def Counts (program : Program ε ρ Vars) (counter : Vars → Nat) (p : Outcome ε ρ → Bool) : Prop :=
  counter program.vars = 0 ∧ ∀ o vars, counter (program.handle o vars) = counter vars + if p o then 1 else 0

theorem Inv.counter_eq {counter : Vars → Nat} {p : Outcome ε ρ → Bool} (h : Inv program outcome s)
    (hc : Counts program counter p) : counter s.vars = s.tally outcome p := by
  rw [h.vars, State.tally]
  induction s.settled using List.reverseRecOn with
  | nil => exact hc.1
  | append_singleton settled k ih =>
    rw [List.foldl_append, List.foldl_cons, List.foldl_nil, hc.2, ih, List.countP_append, List.countP_singleton]

/-- The accounting of a program that is given a number of messages and counts its deliveries: at any
time the deliveries counted, the failed callbacks and the backlog make up what was accepted, and
when nothing is outstanding after the flush as many were handed over as given, and the
deliveries counted are those among them. -/
def AccountsFor (program : Program ε ρ Vars) (count : Nat) (delivered : Vars → Nat) : Prop :=
  ∀ (capacity : Nat) (outcome : Nat → Outcome ε ρ) (events : List Event) (s : State Vars),
    Run (Step program capacity outcome) program.initial events s →
      delivered s.vars + s.tally outcome Outcome.isFailed + s.backlog = s.accepted ∧
      (s.point = .returned → s.backlog = 0 → s.next = count ∧
        delivered s.vars = (List.range count).countP fun k => (outcome k).isDelivered)

theorem accountsFor_of_counts {delivered : Vars → Nat} (hc : Counts program delivered Outcome.isDelivered) :
    AccountsFor program program.count delivered := by
  intro capacity outcome events s hrun
  have h := run_inv hrun
  rw [h.counter_eq hc]
  exact ⟨h.conserved, fun hp hb => ⟨h.left (.inr hp), h.tally_all hp hb _⟩⟩

/-- A counter of one kind of outcome and one of all others make up the count of the loop. -/
theorem Inv.counters_total {counter others : Vars → Nat} {p : Outcome ε ρ → Bool} (h : Inv program outcome s)
    (hc : Counts program counter p) (ho : Counts program others fun o => !p o) (hp : s.point = .returned)
    (hb : s.backlog = 0) : counter s.vars + others s.vars = program.count := by
  have hlength := (h.settled_perm hp hb).length_eq
  rw [List.length_range] at hlength
  rw [h.counter_eq hc, h.counter_eq ho, ← hlength, State.tally, State.tally,
    List.length_eq_countP_add_countP (fun k => p (outcome k))]
  simp only [Bool.not_eq_true]
  congr 2
  funext k
  cases p (outcome k) <;> rfl

/-! The loop goes on to its flush unless the queue overflows. -/

/-- The refusals a program meets are those it handles. -/
def Handled (program : Program ε ρ Vars) (outcome : Nat → Outcome ε ρ) : Prop :=
  program.onRefused = none → ∀ k, (outcome k).isRefused = false

/-- A `produce` call finds room in the queue. -/
def Room (program : Program ε ρ Vars) (capacity : Nat) (s : State Vars) (_ : Event) : Prop :=
  s.point = .produce → s.next < program.count → s.backlog < capacity

/-- After a run the program has raised nothing and is not stuck, it is done with its loop once it
has made enough steps, it has then handed every message over, and it returns with nothing
outstanding. -/
structure ReachesFlush (program : Program ε ρ Vars) (capacity : Nat) (outcome : Nat → Outcome ε ρ)
    (events : List Event) (s : State Vars) : Prop where
  noBufferError : s.point ≠ .bufferError
  noKafkaException : s.point ≠ .kafkaException
  goesOn : s.point.looping = true → ∃ ev t, ev.isMain = true ∧ Step program capacity outcome s ev t
  soon : 4 * program.count < events.countP Event.isMain → s.point.looping = false
  handedOver : s.point.looping = false → s.next = program.count
  flushed : s.point = .returned → s.backlog = 0

/-- The steps a poll has left besides its callbacks. -/
def Point.rank : Point → Nat
  | .poll => 2
  | .serving _ => 1
  | _ => 0

/-- A bound on the steps the program makes before its flush. -/
def rank (program : Program ε ρ Vars) (s : State Vars) : Nat :=
  3 * (program.count - s.next) + (program.count - s.settled.length) + s.point.rank

theorem Program.after_rank (program : Program ε ρ Vars) : (program.after k).rank ≤ 2 := by
  unfold Program.after
  split <;> simp [Point.rank]

/-- A step of the program inside its loop uses the bound up, an answer leaves it. -/
theorem Step.rank_le (hs : Step program capacity outcome s ev t) (h : Inv program outcome s)
    (hl : t.point.looping = true) :
    s.point.looping = true ∧ rank program t + (if ev.isMain then 1 else 0) ≤ rank program s := by
  have hsettled := h.backlog_add
  have hnext := h.next
  cases hs with
  | accept hp hn hq ho =>
    have hafter := program.after_rank (k := s.next)
    have hproduce : s.point.rank = 0 := by rw [hp]; rfl
    refine ⟨by rw [hp]; rfl, ?_⟩
    simp only [rank, hproduce, Event.isMain, if_true]
    omega
  | refuse hp hn hq ho hr =>
    have hafter := program.after_rank (k := s.next)
    have hproduce : s.point.rank = 0 := by rw [hp]; rfl
    refine ⟨by rw [hp]; rfl, ?_⟩
    simp only [rank, hproduce, Event.isMain, if_true, List.length_append, List.length_singleton]
    omega
  | answer k hk => exact ⟨hl, le_rfl⟩
  | beginPoll hp =>
    refine ⟨by rw [hp]; rfl, ?_⟩
    simp only [rank, hp, Point.rank, Event.isMain, if_true]
    omega
  | pollCallback reports k hp hk =>
    have hreports : 0 < reports.card := Finset.card_pos.mpr ⟨k, hk⟩
    refine ⟨by rw [hp]; rfl, ?_⟩
    simp only [State.backlog, hp, Point.reports] at hsettled
    simp only [rank, hp, Point.rank, Event.isMain, if_true, List.length_append, List.length_singleton]
    omega
  | endPoll hp =>
    refine ⟨by rw [hp]; rfl, ?_⟩
    simp only [rank, hp, Point.rank, Event.isMain, if_true]
    omega
  | flushCallback k hp hk => rw [hp] at hl; cases hl
  | raise | overflow | beginFlush | endFlush => cases hl

/-- A run that is still in its loop has made few steps. Induction over the run. -/
theorem run_rank_le {events : List Event} (hrun : Run (Step program capacity outcome) s events t)
    (h : Inv program outcome s) (hl : t.point.looping = true) :
    s.point.looping = true ∧ rank program t + events.countP Event.isMain ≤ rank program s := by
  induction hrun with
  | nil => exact ⟨hl, le_rfl⟩
  | cons hs _ ih =>
    obtain ⟨hl', hle⟩ := ih (hs.inv h) hl
    obtain ⟨hloop, hstep⟩ := hs.rank_le h hl'
    refine ⟨hloop, ?_⟩
    rw [List.countP_cons]
    omega

/-- Inside its loop the program always has a step. -/
theorem Inv.goesOn (h : Inv program outcome s) (hl : s.point.looping = true) :
    ∃ ev t, ev.isMain = true ∧ Step program capacity outcome s ev t := by
  cases hp : s.point with
  | produce =>
    rcases Nat.lt_or_eq_of_le h.next with hn | hn
    · rcases Nat.lt_or_ge s.backlog capacity with hq | hq
      · cases ho : (outcome s.next).isRefused with
        | false => exact ⟨_, _, rfl, .accept hp hn hq ho⟩
        | true =>
          cases hr : program.onRefused with
          | none => exact ⟨_, _, rfl, .raise hp hn hq ho hr⟩
          | some onRefused => exact ⟨_, _, rfl, .refuse hp hn hq ho (by rw [hr]; rfl)⟩
      · exact ⟨_, _, rfl, .overflow hp hn hq⟩
    · exact ⟨_, _, rfl, .beginFlush hp hn⟩
  | poll => exact ⟨_, _, rfl, .beginPoll hp⟩
  | serving reports =>
    rcases reports.eq_empty_or_nonempty with rfl | ⟨k, hk⟩
    · exact ⟨_, _, rfl, .endPoll hp⟩
    · exact ⟨_, _, rfl, .pollCallback reports k hp hk⟩
  | flush | returned | bufferError | kafkaException =>
    rw [hp] at hl
    cases hl

/-- With room at every `produce` call, and its refusals handled, the program raises nothing. -/
theorem guarded_not_raised {events : List Event} (hh : Handled program outcome)
    (hrun : Run (Guarded (Step program capacity outcome) (Room program capacity)) program.initial events s) :
    s.point ≠ .bufferError ∧ s.point ≠ .kafkaException := by
  refine hrun.invariant (fun s => s.point ≠ .bufferError ∧ s.point ≠ .kafkaException) ?_ ?_
  · rintro s ev t ⟨hroom, hs⟩ hi
    cases hs with
    | overflow hp hn hq => exact absurd (hroom hp hn) (Nat.not_lt.mpr hq)
    | raise hp hn hq ho hr => exact absurd ho (by simp [hh hr])
    | accept | refuse => exact ⟨program.after_ne rfl, program.after_ne rfl⟩
    | answer | flushCallback => exact hi
    | beginPoll | pollCallback | endPoll | beginFlush | endFlush => simp
  · simp [Program.initial]

/-- In every run in which each `produce` call finds room the loop hands every message over
and reaches its flush. -/
theorem reachesFlush_of_room {events : List Event} (hh : Handled program outcome)
    (hf : program.flushTimesOut = false)
    (hrun : Run (Guarded (Step program capacity outcome) (Room program capacity)) program.initial events s) :
    ReachesFlush program capacity outcome events s := by
  have h := run_inv hrun.unguarded
  obtain ⟨hbuffer, hkafka⟩ := guarded_not_raised hh hrun
  refine ⟨hbuffer, hkafka, h.goesOn, fun hmany => ?_, fun hleft => ?_, fun hp => ?_⟩
  · by_contra hl
    obtain ⟨-, hle⟩ := run_rank_le hrun.unguarded initial_inv (Bool.eq_true_of_not_eq_false hl)
    simp only [rank, Program.initial, Point.rank, List.length_nil] at hle
    omega
  · cases hp : s.point with
    | flush => exact h.left (.inl hp)
    | returned => exact h.left (.inr hp)
    | bufferError => exact absurd hp hbuffer
    | kafkaException => exact absurd hp hkafka
    | produce | poll | serving =>
      rw [hp] at hleft
      cases hleft
  · rcases h.flushed hp with hb | ht
    · exact hb
    · rw [hf] at ht
      cases ht

/-- A broker that does not answer: the loop fills the queue, and polls in vain. -/
theorem run_stalled (program : Program ε ρ Vars) (capacity : Nat) (outcome : Nat → Outcome ε ρ)
    (ho : ∀ k, (outcome k).isRefused = false) {n : Nat} (hn : n ≤ program.count) (hq : n ≤ capacity) :
    ∃ events s, Run (Step program capacity outcome) program.initial events s ∧
      s.point = .produce ∧ s.next = n ∧ s.ready = ∅ ∧ s.settled = [] := by
  induction n with
  | zero => exact ⟨[], program.initial, .nil _, rfl, rfl, rfl, rfl⟩
  | succ n ih =>
    obtain ⟨events, s, hrun, hp, rfl, hready, hsettled⟩ := ih (by omega) (by omega)
    have hbacklog := (run_inv hrun).backlog_add
    rw [hsettled, List.length_nil, Nat.add_zero] at hbacklog
    have haccept := Step.accept (ε := ε) hp hn (by omega : s.backlog < capacity) (ho s.next)
    cases hpoll : program.pollsAfter s.next with
    | false =>
      refine ⟨_, _, hrun.append (.cons haccept (.nil _)), ?_, rfl, hready, hsettled⟩
      simp only [Program.after, hpoll, Bool.false_eq_true, if_false]
    | true =>
      refine ⟨_, _, hrun.append (.cons haccept (.cons (.beginPoll ?_) (.cons (.endPoll ?_) (.nil _)))),
        rfl, rfl, rfl, hsettled⟩
      · simp only [Program.after, hpoll, if_true]
      · exact congrArg Point.serving hready

/-- Over all schedules of the broker, one that never answers included, the loop hands every
message over and reaches its flush. -/
def NeverOverruns (program : Program ε ρ Vars) (capacity : Nat) : Prop :=
  ∀ (outcome : Nat → Outcome ε ρ) (events : List Event) (s : State Vars), Handled program outcome →
    Run (Step program capacity outcome) program.initial events s → ReachesFlush program capacity outcome events s

/-- The loop reaches its flush over all schedules if and only if it hands over no more
messages than the queue holds. -/
theorem neverOverruns_iff [Inhabited ρ] (hf : program.flushTimesOut = false) :
    NeverOverruns program capacity ↔ program.count ≤ capacity := by
  constructor
  · intro hall
    by_contra hlt
    obtain ⟨events, s, hrun, hp, hn, -, hsettled⟩ := run_stalled program capacity
      (fun _ => .delivered default) (fun _ => rfl) (by omega) (le_refl capacity)
    have hbacklog := (run_inv hrun).backlog_add
    rw [hsettled, List.length_nil, Nat.add_zero] at hbacklog
    have hoverflow := hrun.append (.cons (.overflow hp (by omega) (by omega)) (.nil _))
    exact (hall _ _ _ (fun _ _ => rfl) hoverflow).noBufferError rfl
  · intro hle outcome events s hh hrun
    refine reachesFlush_of_room hh hf (hrun.guarded (Inv program outcome) (fun _ _ _ => Step.inv) ?_ initial_inv)
    intro s ev h hp hn
    have := h.backlog_add
    omega

/-! What the client has been told. -/

/-- The client knows how the message fared. -/
def Reported (s : State Vars) (k : Nat) : Prop := k ∈ s.ready ∨ k ∈ s.point.reports ∨ k ∈ s.settled

theorem not_reported_initial : ¬ Reported program.initial k := by
  simp [Reported, Program.initial, Point.reports]

/-- A step tells the client of the message that it answers or refuses, and of no other. -/
theorem Step.reported (hs : Step program capacity outcome s ev t) (hk : Reported t k) :
    Reported s k ∨ ev = .answer k ∨ ev = .refuse ∧ k = s.next := by
  cases hs with
  | accept hp hn hq ho =>
    rw [Reported, program.after_reports] at hk
    rcases hk with hk | hk | hk
    · exact .inl (.inl hk)
    · cases hk
    · exact .inl (.inr (.inr hk))
  | refuse hp hn hq ho hr =>
    rw [Reported, program.after_reports] at hk
    rcases hk with hk | hk | hk
    · exact .inl (.inl hk)
    · cases hk
    · rcases List.mem_append.mp hk with hk | hk
      · exact .inl (.inr (.inr hk))
      · exact .inr (.inr ⟨rfl, List.mem_singleton.mp hk⟩)
  | answer j hj =>
    rcases hk with hk | hk
    · rcases Finset.mem_insert.mp hk with rfl | hk
      · exact .inr (.inl rfl)
      · exact .inl (.inl hk)
    · exact .inl (.inr hk)
  | beginPoll hp =>
    rcases hk with hk | hk | hk
    · cases hk
    · exact .inl (.inl hk)
    · exact .inl (.inr (.inr hk))
  | pollCallback reports j hp hj =>
    left
    rcases hk with hk | hk | hk
    · exact .inl hk
    · exact .inr (.inl (hp ▸ Finset.mem_of_mem_erase hk))
    · rcases List.mem_append.mp hk with hk | hk
      · exact .inr (.inr hk)
      · exact .inr (.inl (hp ▸ List.mem_singleton.mp hk ▸ hj))
  | flushCallback j hp hj =>
    left
    rcases hk with hk | hk | hk
    · exact .inl (Finset.mem_of_mem_erase hk)
    · exact .inr (.inl hk)
    · rcases List.mem_append.mp hk with hk | hk
      · exact .inr (.inr hk)
      · exact .inl (List.mem_singleton.mp hk ▸ hj)
  | raise hp | overflow hp | endPoll hp | beginFlush hp | endFlush hp =>
    left
    rcases hk with hk | hk | hk
    · exact .inl hk
    · cases hk
    · exact .inr (.inr hk)

theorem Inv.settled_nodup (h : Inv program outcome s) : s.settled.Nodup := by
  have hnodup : s.places.Nodup := h.places ▸ Multiset.nodup_range _
  exact Multiset.coe_nodup.mp (Multiset.nodup_add.mp hnodup).2.1

end Invariant

end Shipstream.Kafka.Producer
